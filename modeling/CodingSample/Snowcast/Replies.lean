import CodingSample.Snowcast.Answers
import CodingSample.Snowcast.Membership
import CodingSample.Snowcast.Transport

/-!
# Replies and commands

A client and the server exchange commands and messages over connections that deliver them whole and
in order. After `Not yet hand shaked.` the server goes on with the command and answers it again, so
replies and commands are paired as long as the client says hello before the commands that need it.
-/

namespace CodingSample.Snowcast

open Prog

variable {e : Endian} {sock : Int} {fd sockfd : Nat} {s s' : Server} {c : Command} {m : Message}
  {q : Pending} {commands rest : List Command}

/-! ### The queue of the client -/

theorem send_gCmdQueue {buf : List UInt8} {n : Int} {k k' : Client}
    (hok : send buf k = .ok (n, k')) : k'.gCmdQueue = k.gCmdQueue := by
  unfold send at hok
  split at hok <;> cases hok <;> rfl

theorem sendLoop_gCmdQueue {fuel : Nat} {buf : List UInt8} {n : Int} {k k' : Client}
    (hok : sendLoop fuel buf k = .ok (n, k')) : k'.gCmdQueue = k.gCmdQueue := by
  induction fuel generalizing buf k with
  | zero =>
      cases hok
      rfl
  | succ fuel ih =>
      unfold sendLoop at hok
      split at hok
      · cases hok
        rfl
      rw [bind_ok_iff] at hok
      obtain ⟨sent, k₁, hsend, hrest⟩ := hok
      split at hrest
      · cases hrest
        exact send_gCmdQueue hsend
      · exact (ih hrest).trans (send_gCmdQueue hsend)

/-- The end of each of the three functions. -/
theorem gCmdQueue_of_ok {buf : List UInt8} {cmd : UInt8} {k k' : Client} {n : Int}
    (hok : (do
      commandQueueEnqueue cmd
      let ret ← sendAll buf
      if ret = -1 then pure (-1) else pure 0 : Control Int) k = .ok (n, k')) :
    k'.gCmdQueue = k.gCmdQueue ++ [cmd] := by
  rw [bind_ok_iff] at hok
  obtain ⟨_, k₁, henqueue, hok⟩ := hok
  cases henqueue
  rw [bind_ok_iff] at hok
  obtain ⟨ret, k₂, hsend, hret⟩ := hok
  have hqueue := sendLoop_gCmdQueue hsend
  split at hret <;> cases hret <;> exact hqueue

/-- A command that is sent is behind the others in the queue. -/
theorem Command.gCmdQueue_send {command : Command} {k k' : Client}
    (hok : command.send e sock k = .ok (0, k')) :
    k'.gCmdQueue = k.gCmdQueue ++ [command.code] := by
  cases command with
  | hello port =>
      unfold Command.send sendHello at hok
      rw [bind_ok_iff] at hok
      obtain ⟨_, k₁, hcheck, hok⟩ := hok
      rw [check_ok_iff] at hcheck
      obtain ⟨-, hcheck⟩ := hcheck
      cases hcheck
      rw [if_neg Nat.toDigits_ne_nil] at hok
      exact gCmdQueue_of_ok hok
  | setStation number => exact gCmdQueue_of_ok hok
  | request type =>
      unfold Command.send sendRequest at hok
      rw [bind_ok_iff] at hok
      obtain ⟨_, k₁, hcheck, hok⟩ := hok
      rw [check_ok_iff] at hcheck
      obtain ⟨-, hcheck⟩ := hcheck
      cases hcheck
      exact gCmdQueue_of_ok hok

/-- The answer to the command at the head takes it off the queue. -/
theorem Message.Answers.receive {l : List UInt8} (h : m.Answers c)
    (hqueue : q.gCmdQueue = c.code :: l) : (m.receive q).gCmdQueue = l := by
  cases m with
  | invalid text =>
      rw [Message.receive, hqueue]
      rfl
  | welcome =>
      cases c with
      | hello port =>
          rw [Message.receive, hqueue]
          rfl
      | setStation number => cases h
      | request type => cases h
  | announce text =>
      cases c with
      | hello port => cases h
      | setStation number =>
          cases h
          rw [Message.receive, if_pos rfl, hqueue]
          rfl
      | request type =>
          cases h
          rw [Message.receive, if_neg (by decide), if_pos rfl, hqueue]
          rfl

theorem Message.receive_of_not_replies (h : ¬ m.Replies) : m.receive q = q := by
  cases m with
  | welcome => exact absurd trivial h
  | invalid text => exact absurd trivial h
  | announce text => rw [Message.receive, if_neg fun heq => h (.inl heq), if_neg fun heq => h (.inr heq)]

/-! ### Dialogues -/

/-- What the server sent to the connection in the last event. -/
def Server.sentTo (s : Server) (fd : Nat) : List Message :=
  s.out.filterMap fun x => if x.1 = fd then some x.2 else none

/-- The server and the client with what is on its way between them. A message that replies to a
command is marked with the command in whose handler it was sent. -/
structure Dialogue where
  server : Server
  pending : Pending
  commands : List Command
  messages : List (Message × Option Command)

namespace Dialogue

def init (s : Server) (wait : Int) : Dialogue := ⟨s, ⟨[], wait⟩, [], []⟩

def mark (c : Command) (m : Message) : Message × Option Command :=
  (m, if m.Replies then some c else none)

/-- The commands whose replies the client has not processed, in the order of their replies. -/
def outstanding (d : Dialogue) : List Command := d.messages.filterMap Prod.snd ++ d.commands

/-- The client sends a command over `sock`, the server handles the next command that comes from
`fd` or another event, or the client processes the next message. -/
inductive Step (ok : Server → Event → Prop) (e : Endian) (sock : Int) (fd : Nat) (d : Dialogue) :
    Dialogue → Prop
  | issue {c : Command} {sends : List (Option Nat)} {stream : List UInt8} {k : Client} {wait : Int}
      (hsend : c.send e sock ⟨d.pending.gCmdQueue, sends, stream⟩ = .ok (0, k)) :
      Step ok e sock fd d { d with pending := ⟨k.gCmdQueue, wait⟩, commands := d.commands ++ [c] }
  | handle {c : Command} {commands : List Command} {udp : Option Nat} {r : List Nat} {s : Server}
      (hcommands : d.commands = c :: commands)
      (henabled : (Event.read fd (.line (some c.received)) udp).Enabled d.server)
      (hok : ok d.server (.read fd (.line (some c.received)) udp))
      (hrun : (Event.read fd (.line (some c.received)) udp).run d.server [] = .ok (r, s)) :
      Step ok e sock fd d
        { d with server := s, commands := commands,
                 messages := d.messages ++ (s.sentTo fd).map (mark c) }
  | other {event : Event} {sends : List Bool} {r : List Nat} {s : Server}
      (hother : event.Other fd) (henabled : event.Enabled d.server) (hok : ok d.server event)
      (hrun : event.run d.server sends = .ok (r, s)) :
      Step ok e sock fd d
        { d with server := s, messages := d.messages ++ (s.sentTo fd).map fun m => (m, none) }
  | process {m : Message} {o : Option Command} {messages : List (Message × Option Command)}
      (hmessages : d.messages = (m, o) :: messages) :
      Step ok e sock fd d { d with pending := m.receive d.pending, messages := messages }

/-- The runs of the two sides. -/
inductive Run (ok : Server → Event → Prop) (e : Endian) (sock : Int) (fd : Nat) (d₀ : Dialogue) :
    Dialogue → Prop
  | nil : Run ok e sock fd d₀ d₀
  | step {d d' : Dialogue} (h : Run ok e sock fd d₀ d) (hstep : Step ok e sock fd d d') :
      Run ok e sock fd d₀ d'

/-- The queue holds the commands that are outstanding, and the replies fit them. -/
structure Paired (d : Dialogue) : Prop where
  tuned : Tuned d.server
  queue : d.pending.gCmdQueue = d.outstanding.map Command.code
  answers : ∀ m c, (m, some c) ∈ d.messages → m.Answers c
  announces : ∀ m, (m, none) ∈ d.messages → ¬ m.Replies

end Dialogue

/-- The handler of a command sends one reply, which answers the command. -/
theorem sentTo_of_answered (h : Answered fd c [] s) :
    ∃ m, (s.sentTo fd).filter Message.Replies = [m] ∧ m.Answers c := by
  obtain ⟨m, l, hout, hanswers, hl⟩ := h
  refine ⟨m, ?_, hanswers⟩
  have hsent : s.sentTo fd = m :: l.filterMap fun x => if x.1 = fd then some x.2 else none := by
    rw [Server.sentTo, hout]
    exact List.filterMap_cons_some (if_pos rfl)
  rw [hsent, List.filter_cons_of_pos (p := fun b : Message => decide b.Replies)
    (decide_eq_true hanswers.replies), List.filter_eq_nil_iff.mpr]
  intro m' hm'
  obtain ⟨x, hx, hsome⟩ := List.mem_filterMap.mp hm'
  rw [if_pos (hl x hx).1] at hsome
  obtain rfl := Option.some.inj hsome
  rw [decide_eq_true_eq]
  exact (hl x hx).2

/-- Another event sends no reply. -/
theorem sentTo_of_spares {s₀ : Server} (h : Spares fd s₀ s) (hout : s₀.out = []) :
    ∀ m ∈ s.sentTo fd, ¬ m.Replies := by
  obtain ⟨l, hl, hannounce⟩ := h.out
  rw [hout, List.nil_append] at hl
  intro m hm
  obtain ⟨x, hx, hsome⟩ := List.mem_filterMap.mp hm
  rw [hl] at hx
  split at hsome
  · rename_i hfd
    obtain rfl := Option.some.inj hsome
    exact hannounce x hx hfd
  · cases hsome

theorem Tuned.run {event : Event} {sends : List Bool} {r : List Nat} (h : Tuned s)
    (henabled : event.Enabled s) (hrun : event.run s sends = .ok (r, s')) : Tuned s' := by
  have hother : ∃ fd, event.Other fd := by
    cases event with
    | read fd input udp => exact ⟨fd + 1, Nat.ne_of_lt (Nat.lt_succ_self fd)⟩
    | accept newfd => exact ⟨0, trivial⟩
    | add songs p => exact ⟨0, trivial⟩
    | delete tokens => exact ⟨0, trivial⟩
    | start p => exact ⟨0, trivial⟩
    | packet p => exact ⟨0, trivial⟩
    | nextSong p song => exact ⟨0, trivial⟩
  obtain ⟨fd, hother⟩ := hother
  exact (wlp_other henabled hother r s' hrun).tuned (h.congr rfl)

theorem Tuned.reached {ok : Server → Event → Prop} (h : Reached ok (Server.init sockfd) s) :
    Tuned s := by
  induction h with
  | init => exact fun p song => nofun
  | step _ henabled _ hrun ih => exact ih.run henabled hrun

/-- The server reads a command and answers it. -/
theorem wlp_read_command {udp : Option Nat} (htuned : Tuned s) (hgreeted : c.Greeted s fd) :
    wlp (Event.read fd (.line (some c.received)) udp).prog (fun _ s' => Answered fd c [] s')
      { s with sends := [], out := [] } := by
  set t : Server := { s with sends := [], out := [] }
  have ht : Tuned t := htuned.congr rfl
  have hgreeted' : c.Greeted t fd := hgreeted
  rw [Event.prog, wlp_bind]
  refine wlp_mono (keeps_select (P := (· = t)) t rfl) ?_
  rintro _ _ rfl
  have hread : wlp (readClient fd udp (.line (some c.received))) (fun _ s' => Answered fd c [] s') t :=
    wlp_bind_of (wlp_parseAndSend rfl ht hgreeted') fun _ s' hs' => wlp_pure.mpr hs'
  exact wlp_bind_of hread fun _ s' hs' => wlp_pure.mpr hs'

namespace Dialogue

variable {ok : Server → Event → Prop} {d d₀ d' : Dialogue}

theorem filterMap_mark (c : Command) (l : List Message) :
    (l.map (mark c)).filterMap Prod.snd = (l.filter Message.Replies).map fun _ => c := by
  induction l with
  | nil => rfl
  | cons m l ih =>
      by_cases h : m.Replies
      · have hmark : (mark c m).2 = some c := if_pos h
        rw [List.filter_cons_of_pos (p := fun b : Message => decide b.Replies) (decide_eq_true h),
          List.map_cons, List.map_cons, ← ih]
        exact List.filterMap_cons_some hmark
      · have hmark : (mark c m).2 = none := if_neg h
        rw [List.filter_cons_of_neg (p := fun b : Message => decide b.Replies)
          (by rwa [decide_eq_true_eq]), List.map_cons, ← ih]
        exact List.filterMap_cons_none hmark

/-- The server handles a command. -/
theorem Paired.handle {udp : Option Nat} {r : List Nat} (h : Paired d)
    (hcommands : d.commands = c :: commands)
    (henabled : (Event.read fd (.line (some c.received)) udp).Enabled d.server)
    (hgreeted : c.Greeted d.server fd)
    (hrun : (Event.read fd (.line (some c.received)) udp).run d.server [] = .ok (r, s)) :
    Paired { d with server := s, commands := commands,
                    messages := d.messages ++ (s.sentTo fd).map (mark c) } := by
  obtain ⟨m, hone, hanswers⟩ := sentTo_of_answered (wlp_read_command h.tuned hgreeted r s hrun)
  refine ⟨h.tuned.run henabled hrun, ?_, ?_, ?_⟩
  · rw [outstanding, List.filterMap_append, filterMap_mark, hone, List.append_assoc]
    have hqueue := h.queue
    rw [outstanding, hcommands] at hqueue
    exact hqueue
  · intro m' c' hin
    rcases List.mem_append.mp hin with hin | hin
    · exact h.answers m' c' hin
    obtain ⟨m₁, hm₁, heq⟩ := List.mem_map.mp hin
    rw [mark] at heq
    split at heq
    · rename_i hreplies
      cases heq
      have hfilter : m' ∈ (s.sentTo fd).filter Message.Replies :=
        List.mem_filter.mpr ⟨hm₁, decide_eq_true hreplies⟩
      rw [hone, List.mem_singleton] at hfilter
      rw [hfilter]
      exact hanswers
    · cases heq
  · intro m' hin
    rcases List.mem_append.mp hin with hin | hin
    · exact h.announces m' hin
    obtain ⟨m₁, -, heq⟩ := List.mem_map.mp hin
    rw [mark] at heq
    split at heq
    · cases heq
    · rename_i hreplies
      cases heq
      exact hreplies

/-- Another event of the server. -/
theorem Paired.other {event : Event} {sends : List Bool} {r : List Nat} (h : Paired d)
    (hother : event.Other fd) (henabled : event.Enabled d.server)
    (hrun : event.run d.server sends = .ok (r, s)) :
    Paired { d with server := s, messages := d.messages ++ (s.sentTo fd).map fun m => (m, none) } := by
  have hnone := sentTo_of_spares (wlp_other henabled hother r s hrun) rfl
  refine ⟨h.tuned.run henabled hrun, ?_, ?_, ?_⟩
  · have hnil : ((s.sentTo fd).map fun m => (m, (none : Option Command))).filterMap Prod.snd = [] := by
      rw [List.filterMap_map, List.filterMap_eq_nil_iff]
      exact fun _ _ => rfl
    rw [outstanding, List.filterMap_append, hnil, List.append_nil]
    exact h.queue
  · intro m' c' hin
    rcases List.mem_append.mp hin with hin | hin
    · exact h.answers m' c' hin
    · obtain ⟨m₁, -, heq⟩ := List.mem_map.mp hin
      cases heq
  · intro m' hin
    rcases List.mem_append.mp hin with hin | hin
    · exact h.announces m' hin
    · obtain ⟨m₁, hm₁, heq⟩ := List.mem_map.mp hin
      cases heq
      exact hnone m' hm₁

/-- What a message does to the queue. -/
theorem Paired.receive {o : Option Command} {messages : List (Message × Option Command)}
    (h : Paired d) (hmessages : d.messages = (m, o) :: messages) :
    (m.receive d.pending).gCmdQueue = (messages.filterMap Prod.snd ++ d.commands).map Command.code := by
  have hqueue := h.queue
  have hin : (m, o) ∈ d.messages := by
    rw [hmessages]
    exact List.mem_cons_self
  rw [outstanding, hmessages] at hqueue
  cases o with
  | none =>
      rw [Message.receive_of_not_replies (h.announces m hin)]
      exact hqueue
  | some c => exact (h.answers m c hin).receive hqueue

theorem Paired.step (hgreeted : ∀ (s : Server) (c : Command) udp,
    ok s (.read fd (.line (some c.received)) udp) → c.Greeted s fd) (h : Paired d)
    (hstep : Step ok e sock fd d d') : Paired d' := by
  cases hstep with
  | issue hsend =>
      refine ⟨h.tuned, ?_, h.answers, h.announces⟩
      change _ = List.map Command.code (_ ++ (_ ++ _))
      rw [← List.append_assoc, List.map_append, Command.gCmdQueue_send hsend, h.queue]
      rfl
  | handle hcommands henabled hok hrun =>
      exact h.handle hcommands henabled (hgreeted _ _ _ hok) hrun
  | other hother henabled hok hrun => exact h.other hother henabled hrun
  | @process m o messages hmessages =>
      have hmem : ∀ x ∈ messages, x ∈ d.messages := by
        intro x hx
        rw [hmessages]
        exact List.mem_cons_of_mem _ hx
      refine ⟨h.tuned, h.receive hmessages, ?_, ?_⟩
      · exact fun m c hin => h.answers m c (hmem _ hin)
      · exact fun m hin => h.announces m (hmem _ hin)

theorem Paired.run (hgreeted : ∀ (s : Server) (c : Command) udp,
    ok s (.read fd (.line (some c.received)) udp) → c.Greeted s fd) (h : Paired d₀)
    (hrun : Run ok e sock fd d₀ d) : Paired d := by
  induction hrun with
  | nil => exact h
  | step _ hstep ih => exact ih.step hgreeted hstep

theorem Paired.init (hs : Tuned s) (wait : Int) : Paired (init s wait) :=
  ⟨hs, rfl, nofun, nofun⟩

theorem Run.reached {wait : Int} (hs : Reached ok (Server.init sockfd) s)
    (h : Run ok e sock fd (Dialogue.init s wait) d) : Reached ok (Server.init sockfd) d.server := by
  induction h with
  | nil => exact hs
  | step _ hstep ih =>
      cases hstep with
      | issue hsend => exact ih
      | handle hcommands henabled hok hrun => exact ih.step henabled hok hrun
      | other hother henabled hok hrun => exact ih.step henabled hok hrun
      | process hmessages => exact ih

end Dialogue

/-- The connection has said hello if the event is one of its commands and needs that. -/
def Event.Greets (fd : Nat) (s : Server) (e : Event) : Prop :=
  ∀ (c : Command) udp, e = .read fd (.line (some c.received)) udp → c.Greeted s fd

/-- If every command that needs a hello comes after it, the server answers each command once, and
the client processes each reply with its command at the head of the queue. If all clients keep to
the protocol, the server does answer. -/
theorem replies_paired {ok : Server → Event → Prop} {wait : Int} {d : Dialogue}
    (hgreets : ∀ s e, ok s e → e.Greets fd s) (hs : Reached ok (Server.init sockfd) s)
    (h : Dialogue.Run ok e sock fd (.init s wait) d) :
    d.pending.gCmdQueue = d.outstanding.map Command.code ∧
    (∀ c commands udp, d.commands = c :: commands →
      (Event.read fd (.line (some c.received)) udp).Enabled d.server →
      ok d.server (.read fd (.line (some c.received)) udp) →
      ((∀ s e, ok s e → e.Polite s) →
        ∃ r s', (Event.read fd (.line (some c.received)) udp).run d.server [] = .ok (r, s')) ∧
      ∀ r s', (Event.read fd (.line (some c.received)) udp).run d.server [] = .ok (r, s') →
        ∃ m, (s'.sentTo fd).filter Message.Replies = [m] ∧ m.Answers c) ∧
    (∀ m c messages, d.messages = (m, some c) :: messages →
      m.Answers c ∧ d.pending.gCmdQueue = c.code :: (m.receive d.pending).gCmdQueue) ∧
    (∀ m messages, d.messages = (m, none) :: messages →
      ¬ m.Replies ∧ m.receive d.pending = d.pending) ∧
    (d.commands = [] → (∀ x ∈ d.messages, x.2 = none) → d.pending.gCmdQueue = []) := by
  have hgreeted : ∀ (s : Server) (c : Command) udp, ok s (.read fd (.line (some c.received)) udp) →
      c.Greeted s fd := fun s c udp hok => hgreets s _ hok c udp rfl
  have hpaired : d.Paired := (Dialogue.Paired.init (Tuned.reached hs) wait).run hgreeted h
  refine ⟨hpaired.queue, ?_, ?_, ?_, ?_⟩
  · intro c commands udp hcommands henabled hok
    refine ⟨fun hpolite => ?_, fun r s' hrun => ?_⟩
    · have hkept : Kept False True d.server := Kept.reached (h.reached hs) (.inr trivial)
        (fun _ _ _ => False.elim) fun s e hok _ => hpolite s e hok
      have hstep := hkept.step (.inr trivial) [] henabled False.elim fun _ => hpolite _ _ hok
      obtain ⟨r, s', hrun, -⟩ := wp_of_ewp hstep fun _ he => he.2 trivial
      exact ⟨r, s', hrun⟩
    · exact sentTo_of_answered (wlp_read_command hpaired.tuned (hgreeted _ _ _ hok) r s' hrun)
  · intro m c messages hmessages
    have hin : (m, some c) ∈ d.messages := by
      rw [hmessages]
      exact List.mem_cons_self
    refine ⟨hpaired.answers m c hin, ?_⟩
    rw [hpaired.receive hmessages, hpaired.queue, Dialogue.outstanding, hmessages]
    rfl
  · intro m messages hmessages
    have hin : (m, none) ∈ d.messages := by
      rw [hmessages]
      exact List.mem_cons_self
    have hnot := hpaired.announces m hin
    exact ⟨hnot, Message.receive_of_not_replies hnot⟩
  · intro hcommands hmessages
    have hnil : d.messages.filterMap Prod.snd = [] := List.filterMap_eq_nil_iff.mpr hmessages
    rw [hpaired.queue, Dialogue.outstanding, hnil, hcommands]
    rfl

/-- A client asks for the current song. -/
def asks (s : Server) : Dialogue := ⟨s, ⟨[cmdRequest], 0⟩, [.request .current], []⟩

theorem asks_run (ok : Server → Event → Prop) (s : Server) :
    Dialogue.Run ok .little 7 5 (.init s 0) (asks s) := by
  have hsend : (Command.request .current).send .little 7 ⟨[], [], []⟩ =
      .ok (0, ⟨[cmdRequest], [], (Command.request .current).bytes⟩) := rfl
  exact .step .nil (.issue (d := .init s 0) (c := .request .current)
    (k := ⟨[cmdRequest], [], (Command.request .current).bytes⟩) hsend)

/-- A client that has said hello gets one reply. -/
theorem replies_paired_current :
    ∃ m, ((oneClient.after (.read 5 (.line (some (.request typeCurrent))) none)).sentTo 5).filter
      Message.Replies = [m] ∧ m.Answers (.request .current) := by
  have hgreeted : (Command.request .current).Greeted oneClient 5 := by
    intro i hi
    have hslot : slotOf oneClient 5 = some 0 := by decide
    obtain rfl : i = 0 := Option.some.inj (hi.symm.trans hslot)
    decide
  have hhello : ∀ s fd port u, (Event.read fd (.line (some (.hello port))) u).Greets 5 s := by
    intro s fd port u c udp heq
    cases c with
    | hello port' => trivial
    | setStation number => cases heq
    | request type => cases heq
  have hreached := oneClient_reached (fun s e => e.Greets 5 s) (fun _ _ _ _ _ => nofun)
    (fun _ _ => nofun) fun s fd port u => hhello s fd port (some u)
  have hpaired := replies_paired (fun _ _ hok => hok) hreached (asks_run _ oneClient)
  refine (hpaired.2.1 (.request .current) [] none rfl ⟨by decide, by decide, nofun⟩ ?_).2 [] _ rfl
  intro c udp heq
  cases c with
  | hello port => cases heq
  | setStation number => cases heq
  | request type =>
      cases type with
      | all => cases heq
      | current => exact hgreeted
      | allStation => trivial

/-- A client that has not said hello gets two replies to a command, and processes the second one
with an empty queue. -/
theorem two_replies : ∃ d : Dialogue, ∃ m₁ m₂,
    Dialogue.Run (fun _ _ => True) .little 7 5 (.init ((Server.init 3).after (.accept 5)) 0) d ∧
      Reached (fun _ _ => True) (Server.init 3) ((Server.init 3).after (.accept 5)) ∧
      d.messages = [(m₁, some (.request .current)), (m₂, some (.request .current))] ∧
      d.pending.gCmdQueue = [cmdRequest] ∧ (m₁.receive d.pending).gCmdQueue = [] := by
  set s := (Server.init 3).after (.accept 5)
  have henabled : (Event.read 5 (.line (some (Command.request .current).received)) none).Enabled s :=
    ⟨by decide, by decide, nofun⟩
  refine ⟨_, .invalid (text "Not yet hand shaked."), .invalid (text "Not yet set station."),
    (asks_run _ s).step (.handle rfl henabled trivial rfl), ?_, rfl, rfl, rfl⟩
  exact Reached.init.after (e := .accept 5) ⟨by decide, by decide⟩ trivial rfl

end CodingSample.Snowcast
