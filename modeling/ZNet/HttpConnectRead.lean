import ZNet.HttpConnect
import Mathlib.Order.Monotone.Basic

/-!
# What the CONNECT handshake takes from the connection

`readResponse` asks for all its buffer can hold, so what it takes beyond the empty line
depends on where the pieces end that `recv` delivers.
-/

namespace ZNet.HttpConnectRead
open TextScan ProxyConfigs HttpConnect
open Socks5 (Socket)

def emptyLine : Text := lineEnd++lineEnd

/-- The response ends with its first empty line. -/
def EndsAtEmptyLine (response : Text) : Prop :=
  ∃ i, indexOf emptyLine response = some i ∧ i+emptyLine.length = response.length

/-- How many bytes the first `j` calls of `recv` deliver to the buffer when the `j`-th is
willing to return `sizes j` and there are as many left. -/
def delivered (sizes : ℕ → ℕ) : ℕ → ℕ
  | 0 => 0
  | j+1 => delivered sizes j+min (max 1 (sizes j)) (responseMax-delivered sizes j)

section Fragments

variable {sizes : ℕ → ℕ}

theorem delivered_le_succ (sizes : ℕ → ℕ) (j : ℕ) : delivered sizes j ≤ delivered sizes (j+1) :=
  Nat.le_add_right _ _

theorem delivered_mono (sizes : ℕ → ℕ) {i j : ℕ} (h : i ≤ j) : delivered sizes i ≤ delivered sizes j :=
  monotone_nat_of_le_succ (delivered_le_succ sizes) h

/-- While the buffer has room, every call delivers something. -/
theorem delivered_lt_succ {j : ℕ} (h : delivered sizes j < responseMax) :
    delivered sizes j < delivered sizes (j+1) := by
  rw [delivered]
  omega

end Fragments

section Terminator

variable {response : Text}

theorem indexOf_end_le {needle s : Text} {i : ℕ} (h : indexOf needle s = some i) : i+needle.length ≤ s.length := by
  obtain ⟨hcut,hi,-⟩ := indexOf_some h
  have hlen := congrArg List.length hcut
  simp only [List.length_append,List.length_take_of_le hi] at hlen
  omega

/-- The empty line is found once all of the response is there. -/
theorem indexOf_take_isSome (rest : Text) (hend : EndsAtEmptyLine response) (n : ℕ) :
    (indexOf emptyLine ((response++rest).take n)).isSome ↔ response.length ≤ n := by
  obtain ⟨i,hi,hlen⟩ := hend
  obtain ⟨hcut,-,-⟩ := indexOf_some hi
  rw [List.drop_of_length_le (by omega),List.append_nil] at hcut
  constructor
  · intro h
    by_contra hlt
    obtain ⟨k,hk⟩ := Option.isSome_iff_exists.mp h
    rw [List.take_append_of_le_length (by omega)] at hk
    obtain ⟨hcut',-,hfirst⟩ := indexOf_some hk
    have hk_le := indexOf_end_le hk
    rw [List.length_take] at hk_le
    -- an earlier empty line would be the first one of the response too
    have hprefix := hfirst ((response.take n).drop (k+emptyLine.length)++response.drop n)
    rw [← List.append_assoc,← hcut',List.take_append_drop,hi] at hprefix
    cases hprefix
    omega
  · intro hle
    rw [List.take_append,List.take_of_length_le hle,indexOf_isSome_iff]
    refine ⟨response.take i,rest.take (n-response.length),?_⟩
    rw [← hcut]

end Terminator

section Read

variable {sizes : ℕ → ℕ} {response : Text}

theorem recv_eq {s : Socket} {n : ℕ} (len : ℕ) (hn : s.recvs s.calls = some n) :
    s.recv len = (some (s.incoming.take (min (max 1 n) len)),
      { s with incoming := s.incoming.drop (min (max 1 n) len), calls := s.calls+1 }) := by
  simp only [Socket.recv,hn]

theorem readResponse_eq (filled : Text) (s : Socket) :
    readResponse filled s =
      if filled.length < responseMax then
        match s.recv (responseMax-filled.length) with
        | (none,s') => .error .handshakeFailed s'
        | (some bytes,s') =>
          if bytes.length = 0 then .error .handshakeFailed s'
          else if (indexOf emptyLine (filled++bytes)).isSome then .ok (filled++bytes) s'
          else readResponse (filled++bytes) s'
      else .error .handshakeFailed s := by
  rw [readResponse]
  rfl

/-- A response that is complete in time is read with all that the last `recv` delivers. -/
theorem readResponse_delivered (rest : Text) (hend : EndsAtEmptyLine response)
    (hmax : response.length ≤ responseMax) {j : ℕ}
    (hshort : delivered sizes j < response.length) {s : Socket}
    (hrecvs : ∀ i, s.recvs (s.calls+i) = some (sizes (j+i)))
    (hincoming : s.incoming = (response++rest).drop (delivered sizes j)) :
    ∃ k s', response.length ≤ delivered sizes k ∧ (∀ i < k, delivered sizes i < response.length) ∧
      readResponse ((response++rest).take (delivered sizes j)) s = .ok ((response++rest).take (delivered sizes k)) s' ∧
      s'.incoming = (response++rest).drop (delivered sizes k) := by
  induction hroom : response.length-delivered sizes j using Nat.strong_induction_on generalizing j s with
  | h m ih =>
    have hlen : ((response++rest).take (delivered sizes j)).length = delivered sizes j := by
      rw [List.length_take,List.length_append]
      omega
    have hmore := delivered_lt_succ (Nat.lt_of_lt_of_le hshort hmax)
    have hrecv := recv_eq (responseMax-delivered sizes j) (hrecvs 0)
    have hstep : delivered sizes (j+1) =
        delivered sizes j+min (max 1 (sizes (j+0))) (responseMax-delivered sizes j) := rfl
    have hbytes : ((s.incoming.take (min (max 1 (sizes (j+0))) (responseMax-delivered sizes j))).length = 0) = False := by
      rw [hincoming,List.length_take,List.length_drop,List.length_append]
      simp only [eq_iff_iff,iff_false]
      omega
    have hfilled : (response++rest).take (delivered sizes j)++
        s.incoming.take (min (max 1 (sizes (j+0))) (responseMax-delivered sizes j)) =
          (response++rest).take (delivered sizes (j+1)) := by
      rw [hincoming,hstep,List.take_add]
    have hleft : s.incoming.drop (min (max 1 (sizes (j+0))) (responseMax-delivered sizes j)) =
        (response++rest).drop (delivered sizes (j+1)) := by
      rw [hincoming,hstep,List.drop_drop]
    have hfound := indexOf_take_isSome rest hend (delivered sizes (j+1))
    rw [readResponse_eq,hlen,if_pos (Nat.lt_of_lt_of_le hshort hmax),hrecv]
    simp only [hbytes,if_false,hfilled,hfound]
    by_cases hdone : response.length ≤ delivered sizes (j+1)
    · rw [if_pos hdone]
      refine ⟨j+1,_,hdone,?_,rfl,hleft⟩
      intro i hi
      exact Nat.lt_of_le_of_lt (delivered_mono sizes (Nat.le_of_lt_succ hi)) hshort
    · rw [if_neg hdone]
      apply ih (response.length-delivered sizes (j+1)) (by omega) (Nat.not_le.mp hdone) ?_ hleft rfl
      intro i
      have hi := hrecvs (1+i)
      rwa [← Nat.add_assoc,← Nat.add_assoc] at hi

/-- What is read is taken from the connection, and it is not empty. -/
theorem readResponse_incoming_lt {filled response : Text} {s s' : Socket}
    (h : readResponse filled s = .ok response s') : s'.incoming.length < s.incoming.length := by
  induction hroom : responseMax-filled.length using Nat.strong_induction_on generalizing filled s with
  | h m ih =>
    rw [readResponse_eq] at h
    split at h
    · rename_i hlt
      cases hn : s.recvs s.calls with
      | none => simp [Socket.recv,hn] at h
      | some n =>
        rw [recv_eq _ hn] at h
        simp only at h
        split at h
        · cases h
        · rename_i hne
          rw [List.length_take] at hne
          split at h
          · cases h
            simp only [List.length_drop]
            omega
          · have hrest := ih _ (by rw [← hroom,List.length_append,List.length_take]; omega) h rfl
            simp only [List.length_drop] at hrest
            omega
    · cases h

end Read

section Connect

variable {stack : DeadStack} {proxy : ProxyHop} {targetHost : Text} {targetPort : UInt16} {s s' : Socket}

/-- The request is sent and a response read before there is a status. -/
theorem attempt_ok {status : ℕ} (h : attempt stack proxy targetHost targetPort s = .ok status s') :
    ∃ response, readResponse [] { s with sent := s.sent++[request proxy targetHost targetPort] } = .ok response s' ∧
      parseStatusLine (stack response) = some status := by
  simp only [attempt,Socket.send] at h
  cases hsend : s.sends s.sent.length with
  | false => simp [hsend] at h
  | true =>
    simp only [hsend] at h
    cases hread : readResponse [] { s with sent := s.sent++[request proxy targetHost targetPort] } with
    | error e t => simp [hread] at h
    | ok response t =>
      simp only [hread] at h
      cases hstatus : parseStatusLine (stack response) with
      | none => simp [hstatus] at h
      | some n =>
        simp only [hstatus,EStateM.Result.ok.injEq] at h
        obtain ⟨rfl,rfl⟩ := h
        exact ⟨response,rfl,hstatus⟩

theorem attempt_of_read {response : Text} {status : ℕ} (hsend : s.sends s.sent.length = true)
    (hread : readResponse [] { s with sent := s.sent++[request proxy targetHost targetPort] } = .ok response s')
    (hstatus : parseStatusLine (stack response) = some status) :
    attempt stack proxy targetHost targetPort s = .ok status s' := by
  simp only [attempt,Socket.send,hsend,hread,hstatus]

theorem attempt_incoming_lt {status : ℕ} (h : attempt stack proxy targetHost targetPort s = .ok status s') :
    s'.incoming.length < s.incoming.length := by
  obtain ⟨response,hread,-⟩ := attempt_ok h
  have hlt := readResponse_incoming_lt hread
  exact hlt

/-- `connect` succeeds with the first status 200, or after one 407 with the second. -/
theorem connect_ok (h : connect stack proxy targetHost targetPort s = .ok () s') :
    attempt stack proxy targetHost targetPort s = .ok 200 s' ∨
      ∃ t, attempt stack proxy targetHost targetPort s = .ok 407 t ∧
        attempt stack proxy targetHost targetPort t = .ok 200 s' := by
  simp only [connect,bind,EStateM.bind] at h
  cases hfirst : attempt stack proxy targetHost targetPort s with
  | error e t => simp [hfirst] at h
  | ok status t =>
    simp only [hfirst] at h
    split_ifs at h with hok hauth
    · cases h
      exact .inl (by rw [hok])
    · refine .inr ⟨t,by rw [hauth],?_⟩
      cases hsecond : attempt stack proxy targetHost targetPort t with
      | error e t' => simp [EStateM.bind,hsecond] at h
      | ok status' t' =>
        simp only [EStateM.bind,hsecond] at h
        split_ifs at h with hok' hauth'
        · cases h
          rw [hok']
        · cases h
        · cases h
    · cases h

theorem connect_of_attempt (h : attempt stack proxy targetHost targetPort s = .ok 200 s') :
    connect stack proxy targetHost targetPort s = .ok () s' := by
  simp only [connect,bind,EStateM.bind,h,if_true]
  rfl

end Connect

/-- For a response of at most 8192 bytes that ends with its first empty line, whatever
follows it and however it arrives: `connect` succeeds with exactly the response taken from
the connection if and only if nothing follows, or some `recv` ends where the response
does, and the dead buffer still reads as a response with status 200. -/
theorem connect_consumes_iff (stack : DeadStack) (proxy : ProxyHop) (targetHost : Text) (targetPort : UInt16)
    (s : Socket) (sizes : ℕ → ℕ) (response rest : Text) (hsend : s.sends s.sent.length = true)
    (hrecvs : ∀ i, s.recvs (s.calls+i) = some (sizes i)) (hincoming : s.incoming = response++rest)
    (hend : EndsAtEmptyLine response) (hmax : response.length ≤ responseMax) :
    (∃ s', connect stack proxy targetHost targetPort s = .ok () s' ∧ s'.incoming = rest) ↔
      (rest = [] ∨ ∃ j, delivered sizes j = response.length) ∧ parseStatusLine (stack response) = some 200 := by
  have hpos : delivered sizes 0 < response.length := by
    obtain ⟨i,-,hlen⟩ := hend
    have hline : emptyLine.length = 4 := rfl
    simp only [delivered]
    omega
  obtain ⟨k,t,hk,hbefore,hread,hleft⟩ := readResponse_delivered rest hend hmax hpos
    (s:={ s with sent := s.sent++[request proxy targetHost targetPort] })
    (fun i => by rw [Nat.zero_add]; exact hrecvs i) (by simpa [delivered] using hincoming)
  simp only [delivered,List.take_zero] at hread
  have hlength : t.incoming.length = response.length+rest.length-delivered sizes k := by
    rw [hleft,List.length_drop,List.length_append]
  constructor
  · rintro ⟨s',hconnect,hrest⟩
    rcases connect_ok hconnect with hfirst|⟨t',hfirst,hsecond⟩
    · -- one attempt, which took the response
      obtain ⟨read,hread',hstatus⟩ := attempt_ok hfirst
      cases hread.symm.trans hread'
      rw [hrest] at hlength
      have hexact : rest = [] ∨ delivered sizes k = response.length := by
        rw [← List.length_eq_zero_iff]
        omega
      refine ⟨hexact.imp_right fun h => ⟨k,h⟩,?_⟩
      rcases hexact with rfl|hexact
      · rwa [List.append_nil,List.take_of_length_le hk] at hstatus
      · rwa [hexact,List.take_left'  rfl] at hstatus
    · -- a second attempt takes more
      obtain ⟨read,hread',-⟩ := attempt_ok hfirst
      cases hread.symm.trans hread'
      have hlt := attempt_incoming_lt hsecond
      rw [hlength,hrest] at hlt
      omega
  · rintro ⟨hexact,hstatus⟩
    have htaken : (response++rest).take (delivered sizes k) = response ∧
        (response++rest).drop (delivered sizes k) = rest := by
      rcases hexact with rfl|⟨j,hj⟩
      · rw [List.append_nil]
        exact ⟨List.take_of_length_le hk,List.drop_of_length_le hk⟩
      · have hle : k ≤ j := by
          by_contra hlt
          exact absurd hj (hbefore j (Nat.not_le.mp hlt)).ne
        have hexact := (delivered_mono sizes hle).antisymm (hj.trans_le hk)
        rw [hexact,hj]
        exact ⟨List.take_left' rfl,List.drop_left' rfl⟩
    rw [htaken.1] at hread
    exact ⟨t,connect_of_attempt (attempt_of_read hsend hread hstatus),hleft.trans htaken.2⟩

/-- `HTTP/1.1 200 OK` and an empty line. -/
def okResponse : Text :=
  ascii ['H','T','T','P','/','1','.','1',' ','2','0','0',' ','O','K']++emptyLine

def plainProxy : ProxyHop := ⟨.http,ascii ['p'],8080,none⟩

/-- A connection on which the response is followed by the first byte of a TLS record, and
`recv` returns `size` bytes at a time. -/
def recordFollows (size : ℕ) : Socket := ⟨okResponse++[0x16],fun _ => some size,0,fun _ => true,[]⟩

/-- In pieces that end where the response does, the byte after it stays. -/
theorem connect_consumes_iff_aligned :
    ∃ s', connect (fun read => read) plainProxy (ascii ['h']) 443 (recordFollows 19) = .ok () s' ∧
      s'.incoming = [0x16] :=
  (connect_consumes_iff (fun read => read) plainProxy (ascii ['h']) 443 (recordFollows 19) (fun _ => 19) okResponse
    [0x16] rfl (fun _ => rfl) rfl ⟨15,by decide,rfl⟩ (by decide)).mpr ⟨.inr ⟨1,rfl⟩,by decide⟩

/-- When one `recv` delivers the response together with the byte after it, the byte is
gone, even if the dead buffer keeps its content. -/
theorem connect_takes_tunnel_byte :
    (∃ s', connect (fun read => read) plainProxy (ascii ['h']) 443 (recordFollows 20) = .ok () s' ∧ s'.incoming = []) ∧
    ¬∀ stack proxy targetHost targetPort (s : Socket) response rest, (∀ i, s.sends i = true) →
      (∀ i, (s.recvs i).isSome) → s.incoming = response++rest → EndsAtEmptyLine response →
      response.length ≤ responseMax → parseStatusLine response = some 200 →
      ∃ s', connect stack proxy targetHost targetPort s = .ok () s' ∧ s'.incoming = rest := by
  have hread : readResponse [] { recordFollows 20 with sent := [request plainProxy (ascii ['h']) 443] } =
      .ok (okResponse++[0x16]) ⟨[],fun _ => some 20,1,fun _ => true,[request plainProxy (ascii ['h']) 443]⟩ := by
    rw [readResponse_eq]
    rfl
  have hattempt : attempt (fun read => read) plainProxy (ascii ['h']) 443 (recordFollows 20) = .ok 200 _ :=
    attempt_of_read rfl hread (by decide)
  have hconnect := connect_of_attempt hattempt
  refine ⟨⟨_,hconnect,rfl⟩,?_⟩
  intro h
  obtain ⟨s',hs',hrest⟩ := h (fun read => read) plainProxy (ascii ['h']) 443 (recordFollows 20) okResponse [0x16]
    (fun _ => rfl) (fun _ => rfl) rfl ⟨15,by decide,rfl⟩ (by decide) (by decide)
  cases hconnect.symm.trans hs'
  cases hrest

end ZNet.HttpConnectRead
