import CodingSample.Snowcast.Messages

/-!
# From the server to the client

The length of a text is one byte, which can be a newline, and the client's buffer is shorter than
the server's, so the client recovers the messages as long as their texts avoid the first and fit in
the second.
-/

namespace CodingSample.Snowcast

open Prog

variable {m : Message} {messages : List Message} {q : Pending} {stack : Nat → UInt8} {broken : Bool}

/-- After any number of rounds the client has the messages in order, and it has not ended before
the last one. -/
def Recovered (messages : List Message) (s : Socket) (q : Pending) : Prop :=
  ∀ stack n, ∃ r q', recvMessage stack n s q = .ok (r, q') ∧ r.heard = messages.take n ∧
    (n ≤ messages.length → r.closed = none)

/-- The text has no newline and no null character, and it is shorter than a buffer of the
server. -/
def Message.Plain (m : Message) : Prop :=
  newline ∉ m.text ∧ 0 ∉ m.text ∧ m.text.length < bufSize

/-- The line of the message fits in the client's buffer, and the byte of the length is no
newline. -/
def Message.Fits (m : Message) : Prop := m.text.length ≤ 252 ∧ m.text.length ≠ 10

instance : DecidablePred Message.Plain := fun m =>
  inferInstanceAs (Decidable (newline ∉ m.text ∧ 0 ∉ m.text ∧ m.text.length < bufSize))

instance : DecidablePred Message.Fits := fun m =>
  inferInstanceAs (Decidable (m.text.length ≤ 252 ∧ m.text.length ≠ 10))

/-! ### Buffers -/

/-- `read_line` writes inside its buffer. -/
theorem readLoop_of_le {n len k : Nat} (data : Nat → UInt8) (s : Socket) (hk : len + n ≤ k) :
    (readLoop n len data s).2.1 k = data k := by
  induction n generalizing len data s with
  | zero => rfl
  | succ n ih =>
      rw [readLoop]
      split
      rename_i ret c s' heq
      split
      · rfl
      split
      · rfl
      split
      · exact Function.update_of_ne (by omega) _ _
      · rw [ih _ _ (by omega)]
        exact Function.update_of_ne (by omega) _ _

theorem loadByte_of_lt {buf : Nat → UInt8} {j : Nat} (hj : j < clientBufSize) :
    loadByte buf j = pure (buf j) := if_pos hj

theorem storeByte_of_lt {tmp : Nat → UInt8} {j : Nat} {c : UInt8} (hj : j < clientBufSize) :
    storeByte tmp j c = pure (Function.update tmp j c) := if_pos hj

theorem copyText_ok (buf tmp : Nat → UInt8) {n j : Nat} (hle : 2 + (j + n) ≤ clientBufSize) :
    ∃ tmp', copyText buf n j tmp q = .ok (tmp', q) ∧ (∀ k < j, tmp' k = tmp k) ∧
      (∀ k, j ≤ k → k < j + n → tmp' k = buf (2 + k)) ∧ tmp' (j + n) = 0 := by
  induction n generalizing j tmp with
  | zero =>
      refine ⟨Function.update tmp j 0, ?_, ?_, ?_, Function.update_self _ _ _⟩
      · rw [copyText, storeByte_of_lt (by omega)]
        rfl
      · intro k hk
        exact Function.update_of_ne (Nat.ne_of_lt hk) _ _
      · intro k hk hlt
        omega
  | succ n ih =>
      obtain ⟨tmp', hcopy, hbefore, htext, hend⟩ :=
        ih (Function.update tmp j (buf (2 + j))) (j := j + 1) (by omega)
      refine ⟨tmp', ?_, ?_, ?_, ?_⟩
      · rw [copyText, loadByte_of_lt (by omega)]
        change (storeByte tmp j (buf (2 + j)) >>= copyText buf n (j + 1)) q = _
        rw [storeByte_of_lt (by omega)]
        exact hcopy
      · intro k hk
        rw [hbefore k (by omega)]
        exact Function.update_of_ne (Nat.ne_of_lt hk) _ _
      · intro k hk hlt
        rcases Nat.eq_or_lt_of_le hk with rfl | hk
        · rw [hbefore _ (by omega), Function.update_self]
        · exact htext k hk (by omega)
      · rw [← hend]
        congr 1
        omega

theorem cstr_eq {tmp : Nat → UInt8} {l : List UInt8} (hlen : l.length < clientBufSize)
    (hzero : 0 ∉ l) (htext : ∀ k < l.length, tmp k = l.getD k 0) (hend : tmp l.length = 0) :
    cstr tmp = l := by
  have hhead : (List.range l.length).map tmp = l := by
    apply List.ext_getElem
    · rw [List.length_map, List.length_range]
    intro k hk hk'
    rw [List.getElem_map, List.getElem_range, htext k hk', List.getD_eq_getElem _ _ hk']
  obtain ⟨d, hd⟩ := Nat.exists_eq_add_of_lt hlen
  rw [cstr, hd, Nat.add_assoc, List.range_add, List.map_append, hhead]
  rw [List.takeWhile_append_of_pos]
  · rw [Nat.add_comm d, List.range_add, List.map_append, List.map_append]
    have hzero' : tmp (l.length + 0) = 0 := hend
    change l ++ (tmp (l.length + 0) :: _).takeWhile _ = l
    rw [hzero', List.takeWhile_cons_of_neg (by decide), List.append_nil]
  · intro c hc
    refine decide_eq_true fun h0 => hzero ?_
    rw [← h0]
    exact hc

/-! ### Lines -/

/-- A line that does not fit in the buffer. -/
theorem readLoop_long (broken : Bool) (len : Nat) (data : Nat → UInt8) (rest : List UInt8) {n : Nat}
    {l : List UInt8} (hl : newline ∉ l) (hn : n ≤ l.length) :
    (readLoop n len data ⟨l ++ rest, broken⟩).1 = -1 := by
  induction n generalizing len data l with
  | zero => rfl
  | succ n ih =>
      cases l with
      | nil => cases hn
      | cons c l =>
          rw [List.mem_cons, not_or] at hl
          rw [readLoop]
          change (if c = newline then _ else
            readLoop n (len + 1) (Function.update data len c) ⟨l ++ rest, broken⟩).1 = _
          rw [if_neg (Ne.symm hl.1)]
          exact ih _ _ hl.2 (Nat.le_of_succ_le_succ hn)

theorem recvMessage_line {l rest : List UInt8} (hne : l ≠ []) (hl : newline ∉ l)
    (hlen : l.length < clientBufSize - 1) (n : Nat) :
    recvMessage stack (n + 1) ⟨l ++ newline :: rest, broken⟩ = (do
      let m ← receiverParser stack (lineBuf l)
      let r ← recvMessage stack n ⟨rest, broken⟩
      pure { r with heard := m.toList ++ r.heard }) := by
  have hpos := List.length_pos_iff.mpr hne
  rw [recvMessage, readLine_line hl hlen]
  exact if_neg (by omega)

/-- The text of a line in the buffer. -/
theorem copyText_line (kind : UInt8) (stack : Nat → UInt8) {l : List UInt8} (hzero : 0 ∉ l)
    (hlen : l.length ≤ 252) :
    ∃ tmp, copyText (lineBuf (kind :: UInt8.ofNat l.length :: l)) (UInt8.ofNat l.length).toNat 0
      stack q = .ok (tmp, q) ∧ cstr tmp = l := by
  have hsize : (UInt8.ofNat l.length).toNat = l.length := by
    rw [UInt8.toNat_ofNat']
    omega
  rw [hsize]
  obtain ⟨tmp, hcopy, -, htext, hend⟩ := copyText_ok (q := q)
    (lineBuf (kind :: UInt8.ofNat l.length :: l)) stack (n := l.length) (j := 0)
    (by change 2 + (0 + l.length) ≤ 256; omega)
  rw [Nat.zero_add] at hend
  refine ⟨tmp, hcopy, cstr_eq (by change l.length < 256; omega) hzero ?_ hend⟩
  intro k hk
  rw [htext k (Nat.zero_le k) (by omega), Nat.add_comm]
  rfl

/-- The effect of a message on the commands that wait for an answer. -/
def Message.receive (q : Pending) : Message → Pending
  | welcome => if q.gCmdQueue.headD 255 = cmdHello then
      { q with gCmdQueue := q.gCmdQueue.tail } else q
  | announce text =>
      if text = setConfirmed then
        if q.gCmdQueue.headD 255 = cmdSetstation then ⟨q.gCmdQueue.tail, 0⟩ else q
      else if text = requestConfirmed then
        if q.gCmdQueue.headD 255 = cmdRequest then
          { q with gCmdQueue := q.gCmdQueue.tail } else q
      else q
  | invalid _ => ⟨q.gCmdQueue.tail,
      if q.gCmdQueue.headD 255 = cmdSetstation then 0 else q.waitForAnnounce⟩

theorem confirm_apply {cmd : UInt8} {wait : Receiver Unit} {q' : Pending}
    (hwait : wait q = .ok ((), q')) : confirm cmd wait q = .ok ((),
      if q.gCmdQueue.headD 255 = cmd then { q' with gCmdQueue := q'.gCmdQueue.tail } else q) := by
  change (if q.gCmdQueue.headD 255 = cmd then _ else _ : Receiver Unit) q = _
  split
  · rw [bind_eq_of_ok hwait]
    rfl
  · rfl

theorem confirmText_apply (text : List UInt8) :
    confirmText text q = .ok ((), (Message.announce text).receive q) := by
  simp only [confirmText, Message.receive]
  split
  · exact confirm_apply (show clearWait q = .ok ((), ⟨q.gCmdQueue, 0⟩) from rfl)
  split
  · exact confirm_apply rfl
  · rfl

theorem stopWaiting_apply : stopWaiting q = .ok ((), { q with
    waitForAnnounce := if q.gCmdQueue.headD 255 = cmdSetstation then 0 else q.waitForAnnounce }) := by
  change (if q.gCmdQueue.headD 255 = cmdSetstation then _ else _ : Receiver Unit) q = _
  split
  · rfl
  · rfl

/-- `receiver_parser` finds the message of its line. -/
theorem receiverParser_line (stack : Nat → UInt8) (q : Pending) (hp : m.Plain) (hf : m.Fits) :
    receiverParser stack (lineBuf m.line) q = .ok (some m, m.receive q) := by
  have hlt : (0 : Nat) < clientBufSize ∧ 1 < clientBufSize := by decide
  rw [receiverParser, loadByte_of_lt hlt.1, bind_eq_of_ok (pure_apply _ _)]
  cases m with
  | welcome =>
      have hkind : lineBuf Message.welcome.line 0 = msgWelcome := rfl
      rw [hkind, if_pos rfl, bind_eq_of_ok (confirm_apply rfl)]
      rfl
  | announce text =>
      obtain ⟨tmp, hcopy, hcstr⟩ :=
        copyText_line msgAnnounce (fun _ => 0) (l := text) (q := q) hp.2.1 hf.1
      have hkind : lineBuf (Message.announce text).line 0 = msgAnnounce := rfl
      rw [hkind, if_neg (by decide), if_pos rfl, loadByte_of_lt hlt.2,
        bind_eq_of_ok (pure_apply _ _)]
      refine (bind_eq_of_ok hcopy).trans ?_
      rw [hcstr, bind_eq_of_ok (confirmText_apply text)]
      rfl
  | invalid text =>
      obtain ⟨tmp, hcopy, hcstr⟩ :=
        copyText_line msgInvalid stack (l := text) hp.2.1 hf.1
      have hkind : lineBuf (Message.invalid text).line 0 = msgInvalid := rfl
      rw [hkind, if_neg (by decide), if_neg (by decide), if_pos rfl,
        bind_eq_of_ok stopWaiting_apply, loadByte_of_lt hlt.2, bind_eq_of_ok (pure_apply _ _)]
      refine (bind_eq_of_ok hcopy).trans ?_
      rw [hcstr]
      rfl

/-! ### Rounds -/

theorem Message.line_ne_nil (m : Message) : m.line ≠ [] := by
  cases m <;> exact List.cons_ne_nil _ _

/-- The byte of the length is no newline. -/
theorem ofNat_ne_newline {n : Nat} (hn : n ≤ 252) (hne : n ≠ 10) : UInt8.ofNat n ≠ newline := by
  intro heq
  have hsize := congrArg UInt8.toNat heq
  rw [UInt8.toNat_ofNat'] at hsize
  change n % 256 = 10 at hsize
  omega

theorem Message.Fits.line (hp : m.Plain) (hf : m.Fits) :
    newline ∉ m.line ∧ m.line.length < clientBufSize - 1 := by
  have hsize := ofNat_ne_newline hf.1 hf.2
  have hlen := hf.1
  cases m with
  | welcome => exact ⟨by decide, by decide⟩
  | announce text =>
      change text.length ≤ 252 at hlen
      refine ⟨?_, by change text.length + 2 < 255; omega⟩
      exact List.not_mem_cons_of_ne_of_not_mem (by decide)
        (List.not_mem_cons_of_ne_of_not_mem hsize.symm hp.1)
  | invalid text =>
      change text.length ≤ 252 at hlen
      refine ⟨?_, by change text.length + 2 < 255; omega⟩
      exact List.not_mem_cons_of_ne_of_not_mem (by decide)
        (List.not_mem_cons_of_ne_of_not_mem hsize.symm hp.1)

/-- A round that receives a message. -/
theorem recvMessage_fits (hp : m.Plain) (hf : m.Fits) (n : Nat) (rest : List UInt8) :
    recvMessage stack (n + 1) ⟨m.line ++ newline :: rest, broken⟩ q = (do
      let r ← recvMessage stack n ⟨rest, broken⟩
      pure { r with heard := m :: r.heard } : Receiver Listening) (m.receive q) := by
  obtain ⟨hline, hlen⟩ := hf.line hp
  rw [recvMessage_line m.line_ne_nil hline hlen, bind_eq_of_ok (receiverParser_line stack q hp hf)]
  rfl

theorem recovered_cons (hp : m.Plain) (hf : m.Fits) (rest : List UInt8) :
    Recovered (m :: messages) ⟨m.line ++ newline :: rest, broken⟩ q ↔
      Recovered messages ⟨rest, broken⟩ (m.receive q) := by
  constructor
  · intro h stack n
    obtain ⟨r, q', hok, hheard, hclosed⟩ := h stack (n + 1)
    rw [recvMessage_fits hp hf, bind_ok_iff] at hok
    obtain ⟨r', q'', hok, hpure⟩ := hok
    cases hpure
    refine ⟨r', _, hok, (List.cons.inj hheard).2, ?_⟩
    exact fun hn => hclosed (Nat.succ_le_succ hn)
  · intro h stack n
    cases n with
    | zero => exact ⟨_, _, rfl, rfl, fun _ => rfl⟩
    | succ n =>
        obtain ⟨r, q', hok, hheard, hclosed⟩ := h stack n
        refine ⟨{ r with heard := m :: r.heard }, q', ?_, ?_, ?_⟩
        · rw [recvMessage_fits hp hf, bind_eq_of_ok hok]
          rfl
        · exact congrArg (m :: ·) hheard
        · exact fun hn => hclosed (Nat.le_of_succ_le_succ hn)

/-- A length that is a newline cuts the line before the text. -/
theorem recvMessage_cut (stack : Nat → UInt8) (broken : Bool) {kind : UInt8}
    (hkind : kind ≠ newline) (n : Nat) (rest : List UInt8) :
    recvMessage stack (n + 1) ⟨kind :: newline :: rest, broken⟩ = (do
      let m ← receiverParser stack (lineBuf [kind])
      let r ← recvMessage stack n ⟨rest, broken⟩
      pure { r with heard := m.toList ++ r.heard }) := by
  refine recvMessage_line (l := [kind]) (List.cons_ne_nil _ _) ?_ (show 1 < 255 by decide) n
  rw [List.mem_singleton]
  exact hkind.symm

/-- A line that does not fit ends the client. -/
theorem recvMessage_long (stack : Nat → UInt8) (q : Pending) (broken : Bool) {l : List UInt8}
    (hl : newline ∉ l) (hlen : clientBufSize - 1 ≤ l.length) (n : Nat) (rest : List UInt8) :
    ∃ s, recvMessage stack (n + 1) ⟨l ++ rest, broken⟩ q = .ok (⟨[], some (-1), s⟩, q) := by
  have hret := readLoop_long broken 0 (fun _ => 0) rest hl hlen
  rw [recvMessage]
  unfold readLine
  rcases heq : readLoop (clientBufSize - 1) 0 (fun _ => 0) ⟨l ++ rest, broken⟩ with ⟨ret, buf, s⟩
  rw [heq] at hret
  obtain rfl : ret = -1 := hret
  exact ⟨s, rfl⟩

/-- The buffer is cleared, so a null character at the end of a line is not seen. -/
theorem lineBuf_append_zero (l : List UInt8) : lineBuf (l ++ [0]) = lineBuf l := by
  rw [← update_lineBuf, update_lineBuf_zero]

/-- A message with a text that does not fit. `cut` is what the client finds when the length is a
newline. -/
theorem not_recovered (cut : Message) {kind : UInt8} {l : List UInt8}
    (hm : m.line = kind :: UInt8.ofNat l.length :: l) (hcut : cut.line = [kind, 0])
    (hp : newline ∉ l) (hf : ¬ (l.length ≤ 252 ∧ l.length ≠ 10)) (hother : l ≠ [] → cut ≠ m)
    (hkind : kind ≠ newline) (hfits : cut.Plain ∧ cut.Fits) (rest : List UInt8) :
    ¬ Recovered (m :: messages) ⟨m.line ++ newline :: rest, broken⟩ q := by
  intro h
  obtain ⟨r, q', hok, hheard, -⟩ := h (fun _ => 0) 1
  rw [hm] at hok
  by_cases hsize : UInt8.ofNat l.length = newline
  · rw [hsize] at hok
    have hround := (congrFun (recvMessage_cut (fun _ => 0) broken hkind 0
      (l ++ newline :: rest)) q).symm.trans hok
    have hparse := receiverParser_line (fun _ => 0) q hfits.1 hfits.2
    rw [hcut, show lineBuf [kind, 0] = lineBuf [kind] from lineBuf_append_zero [kind]] at hparse
    rw [bind_eq_of_ok hparse] at hround
    cases hround
    refine hother ?_ (List.cons.inj hheard).1
    rintro rfl
    exact absurd hsize (by decide)
  · have hline : newline ∉ kind :: UInt8.ofNat l.length :: l :=
      List.not_mem_cons_of_ne_of_not_mem hkind.symm
        (List.not_mem_cons_of_ne_of_not_mem (Ne.symm hsize) hp)
    have hlen : clientBufSize - 1 ≤ (kind :: UInt8.ofNat l.length :: l).length := by
      have hne : l.length ≠ 10 := by
        intro h10
        rw [h10] at hsize
        exact hsize rfl
      change 255 ≤ l.length + 2
      omega
    obtain ⟨s, hlong⟩ := recvMessage_long (fun _ => 0) q broken hline hlen 0
      (newline :: rest)
    rw [hlong] at hok
    cases hok
    cases hheard

theorem recovered_iff (hplain : ∀ m ∈ messages, m.Plain) :
    Recovered messages ⟨messages.flatMap fun m => m.line ++ [newline], broken⟩ q ↔
      ∀ m ∈ messages, m.Fits := by
  induction messages generalizing q with
  | nil =>
      refine iff_of_true ?_ fun _ hm => absurd hm List.not_mem_nil
      intro stack n
      cases n with
      | zero => exact ⟨_, _, rfl, rfl, fun _ => rfl⟩
      | succ n =>
          have hnone (h : n + 1 ≤ 0) : False := Nat.not_succ_le_zero n h
          cases broken with
          | false => exact ⟨_, _, rfl, rfl, fun h => (hnone h).elim⟩
          | true => exact ⟨_, _, rfl, rfl, fun h => (hnone h).elim⟩
  | cons m messages ih =>
      obtain ⟨hp, hrest⟩ := List.forall_mem_cons.mp hplain
      have hstream : (m :: messages).flatMap (fun m => m.line ++ [newline]) =
          m.line ++ newline :: messages.flatMap fun m => m.line ++ [newline] := by
        rw [List.flatMap_cons, List.append_assoc]
        rfl
      rw [hstream, List.forall_mem_cons]
      by_cases hf : m.Fits
      · rw [recovered_cons hp hf, ih hrest]
        exact (and_iff_right hf).symm
      refine iff_of_false ?_ fun h => hf h.1
      cases m with
      | welcome => exact absurd ⟨by decide, by decide⟩ hf
      | announce text =>
          refine not_recovered (.announce []) rfl rfl hp.1 hf ?_ (by decide)
            ⟨⟨by decide, by decide, by decide⟩, by decide, by decide⟩ _
          exact fun hne heq => hne (Message.announce.inj heq).symm
      | invalid text =>
          refine not_recovered (.invalid []) rfl rfl hp.1 hf ?_ (by decide)
            ⟨⟨by decide, by decide, by decide⟩, by decide, by decide⟩ _
          exact fun hne heq => hne (Message.invalid.inj heq).symm

/-- The client recovers the messages of the server exactly if every text has at most 252 bytes and
not 10 of them, and `read_line` never writes outside its buffer. -/
theorem messages_recovered {sends : List (Option Nat)} {o : Outlet}
    (hsent : Writes messages ⟨sends, []⟩ o) (hplain : ∀ m ∈ messages, m.Plain) :
    (Recovered messages ⟨o.stream, broken⟩ q ↔ ∀ m ∈ messages, m.Fits) ∧
      ∀ (data : Nat → UInt8) (s : Socket) (k : Nat), clientBufSize ≤ k →
        (readLine (clientBufSize - 1) data s).2.1 k = data k := by
  refine ⟨?_, ?_⟩
  · rw [hsent.stream]
    exact recovered_iff hplain
  · intro data s k hk
    refine readLoop_of_le data s ?_
    change 256 ≤ k at hk
    change 0 + 255 ≤ k
    omega

/-- A welcome and an announcement, each sent in two pieces. -/
theorem messages_recovered_two : ∃ o,
    Writes [.welcome, .announce (text "Station is closed.")]
      ⟨[some 1, some 1, some 6, some 20], []⟩ o ∧
    Recovered [.welcome, .announce (text "Station is closed.")] ⟨o.stream, false⟩
      ⟨[cmdHello], 0⟩ := by
  have hsent : Writes [.welcome, .announce (text "Station is closed.")]
      ⟨[some 1, some 1, some 6, some 20], []⟩
      ⟨[], [0, 0, 0, 10, 1, 18] ++ text "Station is closed." ++ [10]⟩ :=
    .cons rfl (.cons rfl (.nil _))
  exact ⟨_, hsent, (messages_recovered hsent (by decide)).1.mpr (by decide)⟩

/-- The path of a song of ten bytes: the client announces an empty text and takes the path for
another message. -/
theorem announce_cut : ∃ o, Writes [.announce (text "2/song.mp3")] ⟨[], []⟩ o ∧
    (∀ m ∈ [Message.announce (text "2/song.mp3")], m.Plain) ∧
    (∃ r, recvMessage (fun _ => 0) 2 ⟨o.stream, false⟩ ⟨[cmdRequest], 0⟩ = .ok r ∧
      r.1.heard = [.announce []] ∧ r.2.gCmdQueue = []) ∧
    ¬ Recovered [.announce (text "2/song.mp3")] ⟨o.stream, false⟩ ⟨[cmdRequest], 0⟩ := by
  have hsent : Writes [.announce (text "2/song.mp3")] ⟨[], []⟩
      ⟨[], [1, 10] ++ text "2/song.mp3" ++ [10]⟩ := .cons rfl (.nil _)
  have hheard : ∃ r, recvMessage (fun _ => 0) 2 ⟨[1, 10] ++ text "2/song.mp3" ++ [10], false⟩
      ⟨[cmdRequest], 0⟩ = .ok r ∧ r.1.heard = [.announce []] ∧ r.2.gCmdQueue = [] :=
    ⟨_, rfl, by decide, rfl⟩
  refine ⟨_, hsent, by decide, hheard, ?_⟩
  intro h
  obtain ⟨r, hr, hmine, -⟩ := hheard
  obtain ⟨r', q', hr', htaken, -⟩ := h (fun _ => 0) 2
  cases hr.symm.trans hr'
  exact absurd (hmine.symm.trans htaken) (by decide)

end CodingSample.Snowcast
