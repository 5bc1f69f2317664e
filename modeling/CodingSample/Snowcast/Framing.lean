import CodingSample.Snowcast.Control
import CodingSample.Snowcast.Server

/-!
# From the client to the server

The fields of a command are raw bytes and the command ends with a newline, so the server reads the
commands back as long as no field has a byte that is a newline.
-/

namespace CodingSample.Snowcast

variable {e : Endian} {broken : Bool} {command : Command} {commands : List Command}

/-- The command as the server has to read it. -/
def Command.received : Command → Received
  | hello port => .hello port
  | setStation number => .setStation number
  | request type => .request type.code

/-- After any number of rounds the server has the commands in order with their fields, and it has
not closed the connection before the last command. -/
def Framed (e : Endian) (commands : List Command) (s : Socket) : Prop :=
  ∀ n, (serverListen e n s).received = (commands.take n).map Command.received ∧
    (n ≤ commands.length → (serverListen e n s).closed = none)

/-- No byte of a field is a newline. -/
def Command.Clean (c : Command) : Prop := newline ∉ c.fields

namespace Command

/-- The line without the newline. -/
def line (c : Command) : List UInt8 := c.code :: c.fields

theorem bytes_eq (c : Command) : c.bytes = c.line ++ [newline] := rfl

theorem code_ne_newline (c : Command) : c.code ≠ newline := by
  cases c with
  | hello port => exact (by decide : cmdHello ≠ newline)
  | setStation number => exact (by decide : cmdSetstation ≠ newline)
  | request type => exact (by decide : cmdRequest ≠ newline)

theorem Clean.line (hc : command.Clean) : newline ∉ command.line := by
  intro hmem
  rcases List.mem_cons.mp hmem with hcode | hfield
  · exact command.code_ne_newline hcode.symm
  · exact hc hfield

theorem length_line_lt (c : Command) : c.line.length < bufSize - 1 := by
  cases c with
  | hello port => exact (by decide : 3 < bufSize - 1)
  | setStation number => exact (by decide : 3 < bufSize - 1)
  | request type => exact (by decide : 2 < bufSize - 1)

theorem parse_line (c : Command) : parse e (lineBuf c.line) = some c.received := by
  cases c with
  | hello port => simp [parse, lineBuf, line, code, fields, received]
  | setStation number =>
      simp [parse, lineBuf, line, code, fields, received, cmdHello, cmdSetstation]
  | request type =>
      simp [parse, lineBuf, line, code, fields, received, cmdHello, cmdSetstation, cmdRequest]

end Command

/-- A round that reads a command without a newline in its fields. -/
theorem serverListen_clean (hc : command.Clean) (n : Nat) (rest : List UInt8) :
    serverListen e (n + 1) ⟨command.bytes ++ rest, broken⟩ =
      { serverListen e n ⟨rest, broken⟩ with
        received := command.received :: (serverListen e n ⟨rest, broken⟩).received } := by
  rw [command.bytes_eq, List.append_assoc]
  have hround := serverListen_line e n rest broken
    (List.cons_ne_nil command.code command.fields) hc.line command.length_line_lt
  rw [show parse e (lineBuf (command.code :: command.fields)) = _ from command.parse_line] at hround
  exact hround

/-- A newline in a field cuts the line short, and the server reads zeros for what is missing. -/
theorem cut_short (code : UInt8) {x : UInt16} (hcode : code ≠ newline)
    (hx : newline ∈ [hi x, lo x]) (rest : List UInt8) :
    ∃ l rest', code :: ([hi x, lo x] ++ newline :: rest) = l ++ newline :: rest' ∧ l ≠ [] ∧
      newline ∉ l ∧ l.length < bufSize - 1 ∧ lineBuf l 0 = code ∧
        ofBytes (lineBuf l 1) (lineBuf l 2) ≠ x := by
  have hzero : (0 : UInt8) ≠ newline := by decide
  by_cases hhi : hi x = newline
  · refine ⟨[code], lo x :: newline :: rest, ?_, nofun, ?_, (by decide : 1 < bufSize - 1), rfl, ?_⟩
    · rw [hhi]
      rfl
    · rw [List.mem_singleton]
      exact Ne.symm hcode
    · intro heq
      have h0 : hi x = 0 := by rw [← heq, hi_ofBytes]; rfl
      exact hzero (h0.symm.trans hhi)
  · have hlo : lo x = newline := by
      rw [List.mem_cons, List.mem_singleton] at hx
      exact (hx.resolve_left (Ne.symm hhi)).symm
    refine ⟨[code, hi x], newline :: rest, ?_, nofun, ?_, (by decide : 2 < bufSize - 1), rfl, ?_⟩
    · rw [hlo]
      rfl
    · rw [List.mem_cons, List.mem_singleton, not_or]
      exact ⟨Ne.symm hcode, Ne.symm hhi⟩
    · intro heq
      have h0 : lo x = 0 := by rw [← heq, lo_ofBytes]; rfl
      exact hzero (h0.symm.trans hlo)

/-- The first round reads a command with a newline in its fields as another one. -/
theorem serverListen_unclean (e : Endian) (broken : Bool) (hc : ¬ command.Clean)
    (rest : List UInt8) :
    ∃ r, r ≠ command.received ∧
      (serverListen e 1 ⟨command.bytes ++ rest, broken⟩).received = [r] := by
  have hmem : newline ∈ command.fields := Classical.not_not.mp hc
  rw [command.bytes_eq, List.append_assoc]
  cases command with
  | hello port =>
      obtain ⟨l, rest', hcut, hne, hl, hlen, hbuf, hother⟩ :=
        cut_short cmdHello (by decide) hmem rest
      refine ⟨.hello (ofBytes (lineBuf l 1) (lineBuf l 2)), ?_, ?_⟩
      · exact fun heq => hother (Received.hello.inj heq)
      · refine (congrArg (fun b => (serverListen e 1 ⟨b, broken⟩).received) hcut).trans ?_
        rw [serverListen_line e 0 rest' broken hne hl hlen]
        simp [parse, hbuf, serverListen]
  | setStation number =>
      obtain ⟨l, rest', hcut, hne, hl, hlen, hbuf, hother⟩ :=
        cut_short cmdSetstation (by decide) hmem rest
      refine ⟨.setStation (ofBytes (lineBuf l 1) (lineBuf l 2)), ?_, ?_⟩
      · exact fun heq => hother (Received.setStation.inj heq)
      · refine (congrArg (fun b => (serverListen e 1 ⟨b, broken⟩).received) hcut).trans ?_
        rw [serverListen_line e 0 rest' broken hne hl hlen]
        simp [parse, hbuf, serverListen, cmdHello, cmdSetstation]
  | request type =>
      have hnone : newline ≠ type.code := by
        cases type <;> decide
      exact absurd (List.mem_singleton.mp hmem) hnone

theorem framed_nil (s : Socket) : Framed e [] s ↔
    ∀ n, (serverListen e n s).received = [] := by
  constructor
  · intro h n
    rw [(h n).1, List.take_nil]
    rfl
  · intro h n
    refine ⟨by rw [h n, List.take_nil]; rfl, ?_⟩
    intro hn
    obtain rfl := Nat.le_zero.mp hn
    rfl

/-- A connection with nothing to read. -/
theorem serverListen_empty (n : Nat) : (serverListen e n ⟨[], broken⟩).received = [] := by
  cases n with
  | zero => rfl
  | succ n => cases broken <;> rfl

/-- The commands that follow a command without a newline in its fields. -/
theorem framed_cons_clean (hc : command.Clean) (rest : List UInt8) :
    Framed e (command :: commands) ⟨command.bytes ++ rest, broken⟩ ↔
      Framed e commands ⟨rest, broken⟩ := by
  constructor
  · intro h n
    obtain ⟨hreceived, hclosed⟩ := h (n + 1)
    rw [serverListen_clean hc, List.take_succ_cons, List.map_cons, List.cons.injEq] at hreceived
    refine ⟨hreceived.2, fun hn => ?_⟩
    have hopen := hclosed (Nat.succ_le_succ hn)
    rw [serverListen_clean hc] at hopen
    exact hopen
  · intro h n
    cases n with
    | zero => exact ⟨rfl, fun _ => rfl⟩
    | succ n =>
        obtain ⟨hreceived, hclosed⟩ := h n
        rw [serverListen_clean hc]
        refine ⟨?_, fun hn => hclosed (Nat.le_of_succ_le_succ hn)⟩
        rw [List.take_succ_cons, List.map_cons]
        exact congrArg _ hreceived

theorem framed_iff : Framed e commands ⟨commands.flatMap Command.bytes, broken⟩ ↔
    ∀ c ∈ commands, c.Clean := by
  induction commands with
  | nil => exact iff_of_true ((framed_nil _).mpr serverListen_empty) nofun
  | cons command commands ih =>
      rw [List.flatMap_cons, List.forall_mem_cons]
      by_cases hc : command.Clean
      · rw [framed_cons_clean hc, ih]
        exact (and_iff_right hc).symm
      · refine iff_of_false ?_ fun h => hc h.1
        intro h
        obtain ⟨r, hother, hreceived⟩ :=
          serverListen_unclean e broken hc (commands.flatMap Command.bytes)
        rw [(h 1).1] at hreceived
        exact hother (List.cons.inj hreceived).1.symm

/-- The server reads the commands of a client back exactly if no byte of a port or a station
number is a newline. -/
theorem commands_framed {e' : Endian} {s : Int} {queue : List UInt8} {sends : List (Option Nat)}
    {client : Client} (hsent : Sends e' s commands ⟨queue, sends, []⟩ client) :
    Framed e commands ⟨client.stream, broken⟩ ↔
      ∀ c ∈ commands, newline ∉ c.fields := by
  rw [hsent.stream]
  exact framed_iff

/-- A hello with port 8000 and the station 3. -/
theorem commands_framed_two : ∃ client,
    Sends .little 3 [.hello 8000, .setStation 3] ⟨[], [some 0, some 1], []⟩ client ∧
      Framed .big [.hello 8000, .setStation 3] ⟨client.stream, false⟩ := by
  have hsent : Sends .little 3 [.hello 8000, .setStation 3] ⟨[], [some 0, some 1], []⟩
      ⟨[0, 1], [], [0, 31, 64, 10, 1, 0, 3, 10]⟩ := .cons rfl (.cons rfl (.nil _))
  exact ⟨_, hsent, (commands_framed hsent).mpr (by decide)⟩

/-- The server reads port 5130 as 5120 and then takes the rest of the command for the end of the
connection. -/
theorem hello_cut : ∃ client, Sends .little 3 [.hello 5130] ⟨[], [], []⟩ client ∧
    (serverListen .little 1 ⟨client.stream, false⟩).received = [.hello 5120] ∧
      (serverListen .little 2 ⟨client.stream, false⟩).closed = some 0 ∧
        ¬ Framed .little [.hello 5130] ⟨client.stream, false⟩ := by
  have hsent : Sends .little 3 [.hello 5130] ⟨[], [], []⟩ ⟨[0], [], [0, 20, 10, 10]⟩ :=
    .cons rfl (.nil _)
  have hreceived : (serverListen .little 1 ⟨[0, 20, 10, 10], false⟩).received = [.hello 5120] := by
    rfl
  refine ⟨_, hsent, hreceived, rfl, ?_⟩
  intro h
  have hfirst := (h 1).1
  rw [hreceived] at hfirst
  exact absurd hfirst (by decide)

end CodingSample.Snowcast
