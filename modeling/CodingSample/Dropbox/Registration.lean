import CodingSample.Dropbox.Records

/-!
# Registration

The first line of a connection that a file server opens, and what a registration that fails leaves
in the tables of the master.
-/

namespace CodingSample.Dropbox

def idHead : JString := java "IDF"

def usrHead : JString := java "USR"

/-- The zeros of the decimal digits that one UTF-16 unit encodes. -/
def zeroDigits : List Nat :=
  [0x30, 0x660, 0x6F0, 0x7C0, 0x966, 0x9E6, 0xA66, 0xAE6, 0xB66, 0xBE6, 0xC66, 0xCE6, 0xD66,
    0xE50, 0xED0, 0xF20, 0x1040, 0x1090, 0x17E0, 0x1810, 0x1946, 0x19D0, 0x1A80, 0x1A90, 0x1B50,
    0x1BB0, 0x1C40, 0x1C50, 0xA620, 0xA8D0, 0xA900, 0xA9D0, 0xAA50, 0xABF0, 0xFF10]

/-- `Character.digit` with radix 10. -/
def digit (c : UInt16) : Option Nat :=
  (zeroDigits.find? fun z => z ≤ c.toNat ∧ c.toNat < z + 10).map fun z => c.toNat - z

/-- The value of a string of digits that follows `n`. -/
def digitsFrom (n : Nat) : JString → Option Nat
  | [] => some n
  | c :: s => do digitsFrom (10 * n + (← digit c)) s

/-- `Integer.parseInt`, with `none` for a `NumberFormatException`. -/
def parseInt (s : JString) : Option Int := do
  let (negative, s) := match s with
    | 45 :: s => (true, s)
    | 43 :: s => (false, s)
    | s => (false, s)
  if s = [] then none
  else
    let n ← digitsFrom 0 s
    let n := if negative then -(n : Int) else n
    if -0x80000000 ≤ n ∧ n < 0x80000000 then some n else none

/-- Names and passwords in the order of a line. -/
def listed (clients : List (JString × JString)) : List JString :=
  clients.flatMap fun client => [client.1, client.2]

/-- The number of the file server and its entries, after the head of the line. The other two numbers
are read as well. -/
def identification : List JString → Option (Int × List JString)
  | id :: prio :: maxClientNum :: entries =>
      match parseInt id, parseInt prio, parseInt maxClientNum with
      | some id, some _, some _ => some (id, entries)
      | _, _, _ => none
  | _ => none

namespace MasterServer

/-- `MasterServerClusterNet.parse`, and whether it confirms. An exception ends it where it is
raised. -/
def parse (m : MasterServer) (str : JString) : Bool × MasterServer :=
  match tokens str with
  | [] => (false, m)
  | tk :: rest =>
      if tk = idHead then
        match identification rest with
        | some (id, entries) => m.identify id entries
        | none => (false, m)
      else if tk = usrHead then
        match rest with
        | id :: _ =>
            match parseInt id with
            | some id =>
                match m.findFileServer id with
                | some _ => (true, m)
                | none => (true, { m with fsnodes := m.fsnodes ++ [⟨m.made, 0⟩]
                                          made := m.made + 1 })
            | none => (false, m)
        | [] => (false, m)
      else (false, m)

/-! ### What an identification does -/

variable {m m' : MasterServer} {node : Nat} {id : Int} {entries : List JString}

/-- No client of the line is registered, and none is listed twice. -/
def AllNew (m : MasterServer) (entries : List JString) : Prop :=
  ∃ clients, entries = listed clients ∧ (clients.map Prod.fst).Nodup ∧
    ∀ name ∈ clients.map Prod.fst, name ∉ m.names

/-- The first entry is incomplete, or its name is registered. -/
def FailsFirst (m : MasterServer) (entries : List JString) : Prop :=
  entries.length = 1 ∨ ∃ name, entries.head? = some name ∧ name ∈ m.names

/-- The node is in the list, and the table has all its clients. -/
def Registered (m : MasterServer) (id : Int) (entries : List JString) (m' : MasterServer) : Prop :=
  ∃ clients, entries = listed clients ∧
    m'.clients = m.clients ++ clients.map (fun client => ⟨client.1, client.2, m.made⟩) ∧
    m'.fsnodes = m.fsnodes ++ [⟨m.made, id⟩]

def SameTables (m m' : MasterServer) : Prop := m'.clients = m.clients ∧ m'.fsnodes = m.fsnodes

theorem clientExist_congr (h : SameTables m m') (name : JString) :
    m'.clientExist name = m.clientExist name := by
  rw [clientExist, clientExist, h.1]

theorem listed_cons (client : JString × JString) (clients : List (JString × JString)) :
    listed (client :: clients) = client.1 :: client.2 :: listed clients := rfl

theorem addClient_eq_false {name pwd : JString} (h : m.addClient name pwd node = (false, m')) :
    name ∈ m.names ∧ m' = m := by
  by_cases hmem : name ∈ m.names
  · rw [addClient_of_mem hmem] at h
    cases h
    exact ⟨hmem, rfl⟩
  · rw [addClient_of_not_mem hmem] at h
    cases h

theorem addClient_eq_true {name pwd : JString} (h : m.addClient name pwd node = (true, m')) :
    name ∉ m.names ∧ m' = { m with clients := m.clients ++ [⟨name, pwd, node⟩] } := by
  by_cases hmem : name ∈ m.names
  · rw [addClient_of_mem hmem] at h
    cases h
  · rw [addClient_of_not_mem hmem] at h
    cases h
    exact ⟨hmem, rfl⟩

/-- Records are only added, and only to the table. -/
theorem loadEntries_adds (node : Nat) (entries : List JString) (m : MasterServer) :
    ∃ added, (loadEntries node entries m).2 = { m with clients := m.clients ++ added } := by
  induction entries, m using loadEntries.induct node with
  | case1 m => exact ⟨[], by rw [List.append_nil]; rfl⟩
  | case2 m => exact ⟨[], by rw [List.append_nil]; rfl⟩
  | case3 clientName password entries m m' hadd =>
      rw [loadEntries, hadd, (addClient_eq_false hadd).2]
      exact ⟨[], by rw [List.append_nil]⟩
  | case4 clientName password entries m m' hadd ih =>
      rw [loadEntries, hadd]
      dsimp only
      obtain ⟨added, hadded⟩ := ih
      rw [(addClient_eq_true hadd).2, List.append_assoc] at hadded
      rw [(addClient_eq_true hadd).2]
      exact ⟨_, hadded⟩

/-- Entries that are all new are all added. -/
theorem loadEntries_allNew (node : Nat) (h : AllNew m entries) :
    ∃ clients, entries = listed clients ∧ loadEntries node entries m =
      (true, { m with clients := m.clients ++ clients.map fun e => ⟨e.1, e.2, node⟩ }) := by
  obtain ⟨clients, rfl, hnodup, hnew⟩ := h
  refine ⟨clients, rfl, ?_⟩
  induction clients generalizing m with
  | nil =>
      rw [List.map_nil, List.append_nil]
      rfl
  | cons client clients ih =>
      obtain ⟨hfirst, hnodup⟩ := List.nodup_cons.mp hnodup
      rw [listed_cons, loadEntries, addClient_of_not_mem (hnew client.1 List.mem_cons_self)]
      dsimp only
      rw [ih hnodup, List.append_assoc]
      · rfl
      · intro name hname hmem
        rw [names, List.map_append, List.mem_append] at hmem
        rcases hmem with hmem | hmem
        · exact hnew name (List.mem_cons_of_mem _ hname) hmem
        · rw [List.mem_singleton.mp hmem] at hname
          exact hfirst hname

theorem allNew_of_loadEntries (h : (loadEntries node entries m).1 = true) : AllNew m entries := by
  induction entries, m using loadEntries.induct node with
  | case1 m => exact ⟨[], rfl, List.nodup_nil, fun name hname => absurd hname List.not_mem_nil⟩
  | case2 m => cases h
  | case3 clientName password entries m m' hadd =>
      rw [loadEntries, hadd] at h
      cases h
  | case4 clientName password entries m m' hadd ih =>
      rw [loadEntries, hadd] at h
      obtain ⟨clients, rfl, hnodup, hnew⟩ := ih h
      obtain ⟨hmem, rfl⟩ := addClient_eq_true hadd
      have hnames : ∀ name ∈ clients.map Prod.fst, name ∉ m.names ∧ name ≠ clientName := by
        intro name hname
        have hnot := hnew name hname
        rw [names, List.map_append, List.mem_append, not_or] at hnot
        exact ⟨hnot.1, fun heq => hnot.2 (List.mem_singleton.mpr heq)⟩
      refine ⟨(clientName, password) :: clients, rfl, ?_, ?_⟩
      · exact List.nodup_cons.mpr ⟨fun hname => (hnames clientName hname).2 rfl, hnodup⟩
      · intro name hname
        rcases List.mem_cons.mp hname with rfl | hname
        · exact hmem
        · exact (hnames name hname).1

theorem loadEntries_failsFirst (h : FailsFirst m entries) :
    loadEntries node entries m = (false, m) := by
  rcases h with hlength | ⟨name, hhead, hname⟩
  · obtain ⟨entry, rfl⟩ := List.length_eq_one_iff.mp hlength
    rfl
  · obtain ⟨rest, rfl⟩ := List.head?_eq_some_iff.mp hhead
    cases rest with
    | nil => rfl
    | cons password rest => rw [loadEntries, addClient_of_mem hname]

/-- Once a client has been added, the loop leaves it there. -/
theorem failsFirst_of_loadEntries (h : (loadEntries node entries m).1 = false)
    (hclients : (loadEntries node entries m).2.clients = m.clients) : FailsFirst m entries := by
  cases entries with
  | nil => cases h
  | cons clientName entries =>
      cases entries with
      | nil => exact .inl rfl
      | cons password entries =>
          by_cases hmem : clientName ∈ m.names
          · exact .inr ⟨clientName, rfl, hmem⟩
          · rw [loadEntries, addClient_of_not_mem hmem] at hclients
            dsimp only at hclients
            obtain ⟨added, hadded⟩ := loadEntries_adds node entries
              { m with clients := m.clients ++ [⟨clientName, password, node⟩] }
            rw [hadded] at hclients
            have hlength := congrArg List.length hclients
            rw [List.length_append, List.length_append, List.length_singleton] at hlength
            omega

theorem identify_allNew (h : AllNew m entries) : (m.identify id entries).1 = true ∧
    Registered m id entries (m.identify id entries).2 := by
  have hnew : AllNew { m with made := m.made + 1 } entries := h
  obtain ⟨clients, hentries, hload⟩ := loadEntries_allNew m.made hnew
  rw [identify, hload]
  exact ⟨rfl, clients, hentries, rfl, rfl⟩

theorem identify_failsFirst (h : FailsFirst m entries) :
    m.identify id entries = (false, { m with made := m.made + 1 }) := by
  have hfails : FailsFirst { m with made := m.made + 1 } entries := h
  rw [identify, loadEntries_failsFirst hfails]

/-- An identification registers the node or leaves no trace iff its clients are all new or its
first entry fails. -/
theorem identify_atomic :
    (Registered m id entries (m.identify id entries).2 ∨ SameTables m (m.identify id entries).2) ↔
      AllNew m entries ∨ FailsFirst m entries := by
  constructor
  · intro h
    rw [identify] at h
    cases hload : loadEntries m.made entries { m with made := m.made + 1 } with
    | mk found m' =>
        rw [hload] at h
        have hfsnodes : m'.fsnodes = m.fsnodes := by
          obtain ⟨added, hadded⟩ :=
            loadEntries_adds m.made entries { m with made := m.made + 1 }
          rw [hload] at hadded
          have hm' : m' = { m with made := m.made + 1, clients := m.clients ++ added } := hadded
          rw [hm']
        cases found with
        | true =>
            have hnew : AllNew { m with made := m.made + 1 } entries :=
              allNew_of_loadEntries (congrArg Prod.fst hload)
            exact .inl hnew
        | false =>
            rcases h with ⟨clients, -, -, h⟩ | h
            · have hlength := congrArg List.length h
              change m'.fsnodes.length = (m.fsnodes ++ [_]).length at hlength
              rw [hfsnodes, List.length_append, List.length_singleton] at hlength
              omega
            · have hfails : FailsFirst { m with made := m.made + 1 } entries := by
                refine failsFirst_of_loadEntries (congrArg Prod.fst hload) ?_
                rw [hload]
                exact h.1
              exact .inr hfails
  · rintro (h | h)
    · exact .inl (identify_allNew h).2
    · rw [identify_failsFirst h]
      exact .inr ⟨rfl, rfl⟩

/-- The line is no identification, its clients are all new, or its first entry fails. -/
def Clean (m : MasterServer) (str : JString) : Prop :=
  ∀ rest id entries, tokens str = idHead :: rest → identification rest = some (id, entries) →
    AllNew m entries ∨ FailsFirst m entries

/-- An identification registers a node with all the clients of the line or leaves no trace. -/
def Atomic (m : MasterServer) (str : JString) : Prop :=
  ∀ rest, tokens str = idHead :: rest →
    (∃ id entries, identification rest = some (id, entries) ∧
      Registered m id entries (m.parse str).2) ∨ SameTables m (m.parse str).2

theorem parse_identify {str : JString} {rest : List JString} (hstr : tokens str = idHead :: rest) :
    m.parse str = match identification rest with
      | some (id, entries) => m.identify id entries
      | none => (false, m) := by
  rw [parse, hstr]
  dsimp only
  rw [if_pos rfl]

theorem atomic_iff {str : JString} : Atomic m str ↔ Clean m str := by
  constructor
  · intro h rest id entries hstr hid
    have hparse := h rest hstr
    rw [parse_identify hstr, hid] at hparse
    refine identify_atomic.mp (hparse.imp_left ?_)
    rintro ⟨id', entries', heq, hregistered⟩
    cases heq
    exact hregistered
  · intro h rest hstr
    rw [parse_identify hstr]
    cases hid : identification rest with
    | none => exact .inr ⟨rfl, rfl⟩
    | some found =>
        rcases identify_atomic.mpr (h rest found.1 found.2 hstr hid) with h | h
        · exact .inl ⟨found.1, found.2, rfl, h⟩
        · exact .inr h

theorem sameTables_of_parse {str : JString} {rest : List JString}
    (hstr : tokens str = idHead :: rest) (hclean : Clean m str) (h : (m.parse str).1 = false) :
    SameTables m (m.parse str).2 := by
  rw [parse_identify hstr] at h ⊢
  cases hid : identification rest with
  | none => exact ⟨rfl, rfl⟩
  | some found =>
      rw [hid] at h
      rcases hclean rest found.1 found.2 hstr hid with hnew | hfails
      · cases (identify_allNew hnew).1.symm.trans h
      · dsimp only
        rw [identify_failsFirst hfails]
        exact ⟨rfl, rfl⟩

end MasterServer

/-! ### Runs of the master -/

/-- The master, and the objects on which `destroy` was called. -/
structure Master where
  server : MasterServer
  destroyed : List Nat

/-- What the threads of the master do. The thread of a node that is left calls `removeDead` some
time after `destroy`, and the timer may collect the node in between. -/
inductive Event where
  | parse (str : JString)
  | accept (node : Nat) (str : JString)
  | destroy (node : Nat)
  | removeDead (node : Nat)
  | garbageCollection

namespace MasterServer

def objects (m : MasterServer) : List Nat := m.fsnodes.map FileServerNode.object

def garbageCollection (m : MasterServer) (destroyed : List Nat) : MasterServer :=
  { m with fsnodes := m.fsnodes.filter fun fsn => fsn.object ∉ destroyed }

/-- Every client has an owner in the list. -/
def Owned (m : MasterServer) : Prop := ∀ cr ∈ m.clients, cr.owner ∈ m.objects

end MasterServer

namespace Master

def step (s : Master) : Event → Master
  | .parse str => { s with server := (s.server.parse str).2 }
  | .accept node str => { s with server := (s.server.accept node str).2 }
  | .destroy node => { s with destroyed := node :: s.destroyed }
  | .removeDead node => { s with server := s.server.removeDead node }
  | .garbageCollection => { s with server := s.server.garbageCollection s.destroyed }

/-- A node takes new clients only while it is in the list, and it is collected only after its
clients. -/
def Clean (s : Master) : Event → Prop
  | .parse str => s.server.Clean str
  | .accept node str => ∀ name pwd, tokens str = [addClientHead, name, pwd] →
      name ∉ s.server.names → node ∈ s.server.objects
  | .garbageCollection => ∀ cr ∈ s.server.clients, cr.owner ∉ s.destroyed
  | _ => True

/-- The runs in which every step is clean. -/
inductive Reached : Master → Prop
  | init : Reached ⟨⟨[], [], 0⟩, []⟩
  | step {s : Master} {e : Event} (h : Reached s) (hclean : s.Clean e) : Reached (s.step e)

end Master

namespace MasterServer

theorem owner_changeLoop {name pwd : JString} {l : List ClientRecord} :
    (changeLoop name pwd l).2.map ClientRecord.owner = l.map ClientRecord.owner := by
  induction l with
  | nil => rfl
  | cons cr l ih =>
      rw [changeLoop]
      split
      · rfl
      · rw [List.map_cons, List.map_cons, ← ih]

theorem Owned.registered {id : Int} {clients : List (JString × JString)} (h : Owned m)
    (hclients : m'.clients = m.clients ++ clients.map (fun e => ⟨e.1, e.2, node⟩))
    (hfsnodes : m'.fsnodes = m.fsnodes ++ [⟨node, id⟩]) : Owned m' := by
  intro cr hcr
  rw [objects, hfsnodes, List.map_append, List.mem_append]
  rw [hclients, List.mem_append] at hcr
  rcases hcr with hcr | hcr
  · exact .inl (h cr hcr)
  · obtain ⟨client, -, rfl⟩ := List.mem_map.mp hcr
    exact .inr (List.mem_singleton.mpr rfl)

theorem Owned.sameTables (h : Owned m) (hsame : SameTables m m') : Owned m' := by
  intro cr hcr
  rw [hsame.1] at hcr
  rw [objects, hsame.2]
  exact h cr hcr

theorem Owned.parse {str : JString} (h : Owned m) (hclean : m.Clean str) :
    Owned (m.parse str).2 := by
  cases htokens : tokens str with
  | nil =>
      rw [MasterServer.parse, htokens]
      exact h
  | cons tk rest =>
      by_cases hid : tk = idHead
      · rw [hid] at htokens
        rcases atomic_iff.mpr hclean rest htokens with
          ⟨id, entries, -, clients, -, hclients, hfsnodes⟩ | hsame
        · exact h.registered hclients hfsnodes
        · exact h.sameTables hsame
      · rw [MasterServer.parse, htokens]
        dsimp only
        rw [if_neg hid]
        split
        · split
          · split
            · split
              · exact h
              · intro cr hcr
                rw [objects, List.map_append]
                exact List.mem_append_left _ (h cr hcr)
            · exact h
          · exact h
        · exact h

theorem Owned.addClient {name pwd : JString} (h : Owned m)
    (hnode : name ∉ m.names → node ∈ m.objects) : Owned (m.addClient name pwd node).2 := by
  by_cases hname : name ∈ m.names
  · rw [addClient_of_mem hname]
    exact h
  · rw [addClient_of_not_mem hname]
    intro cr hcr
    rcases List.mem_append.mp hcr with hcr | hcr
    · exact h cr hcr
    · rw [List.mem_singleton.mp hcr]
      exact hnode hname

theorem Owned.removeClient {name : JString} (h : Owned m) : Owned (m.removeClient name).2 := by
  rw [MasterServer.removeClient]
  split
  · intro cr hcr
    exact h cr (List.mem_of_mem_eraseP hcr)
  · exact h

theorem Owned.changePassword {name pwd : JString} (h : Owned m) :
    Owned (m.changePassword name pwd).2 := by
  intro cr hcr
  have howner : cr.owner ∈ (changeLoop name pwd m.clients).2.map ClientRecord.owner :=
    List.mem_map_of_mem hcr
  rw [owner_changeLoop] at howner
  obtain ⟨old, hold, hsame⟩ := List.mem_map.mp howner
  rw [← hsame]
  exact h old hold

theorem Owned.accept {str : JString} (h : Owned m)
    (hclean : ∀ name pwd, tokens str = [addClientHead, name, pwd] →
      name ∉ m.names → node ∈ m.objects) : Owned (m.accept node str).2 := by
  rw [MasterServer.accept]
  split
  · exact h
  · rename_i tkn rest htokens
    split
    · rename_i hadd
      split
      · rename_i name pwd
        rw [hadd] at htokens
        have howned : Owned (m.addClient name pwd node).2 := h.addClient (hclean name pwd htokens)
        split <;> rename_i hresult <;> rw [hresult] at howned <;> exact howned
      · exact h
    · split
      · split
        · rename_i name
          have howned : Owned (m.removeClient name).2 := h.removeClient
          split <;> rename_i hresult <;> rw [hresult] at howned <;> exact howned
        · exact h
      · split
        · split
          · rename_i name pwd
            have howned : Owned (m.changePassword name pwd).2 := h.changePassword
            split <;> rename_i hresult <;> rw [hresult] at howned <;> exact howned
          · exact h
        · exact h

theorem Owned.removeDead (h : Owned m) : Owned (m.removeDead node) := by
  intro cr hcr
  obtain ⟨hcr, howner⟩ := List.mem_filter.mp hcr
  rw [decide_eq_true_eq] at howner
  obtain ⟨fsn, hfsn, hobject⟩ := List.mem_map.mp (h cr hcr)
  refine List.mem_map.mpr ⟨fsn, ?_, hobject⟩
  refine (List.mem_eraseP_of_neg ?_).mpr hfsn
  rw [decide_eq_true_eq, hobject]
  exact howner

theorem Owned.garbageCollection {destroyed : List Nat} (h : Owned m)
    (hclean : ∀ cr ∈ m.clients, cr.owner ∉ destroyed) : Owned (m.garbageCollection destroyed) := by
  intro cr hcr
  obtain ⟨fsn, hfsn, hobject⟩ := List.mem_map.mp (h cr hcr)
  refine List.mem_map.mpr ⟨fsn, List.mem_filter.mpr ⟨hfsn, ?_⟩, hobject⟩
  rw [decide_eq_true_eq, hobject]
  exact hclean cr hcr

end MasterServer

namespace Master

variable {s : Master}

theorem owned_step {e : Event} (h : s.server.Owned) (hclean : s.Clean e) :
    (s.step e).server.Owned := by
  cases e with
  | parse str => exact h.parse hclean
  | accept node str => exact h.accept hclean
  | destroy node => exact h
  | removeDead node => exact h.removeDead
  | garbageCollection => exact h.garbageCollection hclean

theorem Reached.owned (h : Reached s) : s.server.Owned := by
  induction h with
  | init => exact fun cr hcr => absurd hcr List.not_mem_nil
  | step h hclean ih => exact owned_step ih hclean

end Master

/-- A registration is complete or leaves no trace exactly when its clients are all new or it fails
at its first entry. In the runs whose steps are clean every client has an owner in the list of
nodes, and a line that fails makes no name exist. -/
theorem registration_atomic_iff (m : MasterServer) (line : JString) :
    (m.Atomic line ↔ m.Clean line) ∧
      ∀ s : Master, s.Reached → s.server.Owned ∧
        ∀ str rest, tokens str = idHead :: rest → s.server.Clean str →
          (s.server.parse str).1 = false → ∀ name,
            (s.server.parse str).2.clientExist name = s.server.clientExist name := by
  refine ⟨MasterServer.atomic_iff, fun s hs => ⟨hs.owned, ?_⟩⟩
  intro str rest hstr hclean hparse name
  exact MasterServer.clientExist_congr (MasterServer.sameTables_of_parse hstr hclean hparse) name

/-- The first client of a line whose second entry repeats its name stays in the table without a node
that owns it. -/
theorem registration_leaves_trace :
    ((⟨[], [], 0⟩ : MasterServer).parse (java "IDF 1 1 10 a x a y")).2 =
        ⟨[⟨java "a", java "x", 0⟩], [], 1⟩ ∧
      ¬MasterServer.Atomic ⟨[], [], 0⟩ (java "IDF 1 1 10 a x a y") := by
  have hparse : ((⟨[], [], 0⟩ : MasterServer).parse (java "IDF 1 1 10 a x a y")).2 =
      ⟨[⟨java "a", java "x", 0⟩], [], 1⟩ := rfl
  refine ⟨hparse, fun h => ?_⟩
  rcases h [java "1", java "1", java "10", java "a", java "x", java "a", java "y"] (by decide) with
    ⟨id, entries, -, clients, -, -, hfsnodes⟩ | ⟨hclients, -⟩
  · rw [hparse] at hfsnodes
    cases hfsnodes
  · rw [hparse] at hclients
    cases hclients

end CodingSample.Dropbox
