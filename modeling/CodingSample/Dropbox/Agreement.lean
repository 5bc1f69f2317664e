import CodingSample.Dropbox.Commands
import CodingSample.Dropbox.Records

/-!
# The master and the file servers agree

The master removes whatever client a file server names, so its table and those of the file servers
agree as long as no `-r` reaches it that names a client of another file server.
-/

namespace CodingSample.Dropbox

variable {m : MasterServer} {name pwd oldPassword str reply : JString} {n : Nat} {call : Call}

namespace Cluster

variable {ι : Type} [DecidableEq ι] {ok : MasterServer → Nat → JString → Prop} {id : ι → Int}
  {s s' : Cluster ι} {i j : ι}

/-- The master's records of a file server are those that it should have. -/
def Matches (m : MasterServer) (f : DropboxFileServer) : Prop :=
  ∀ n, f.node = some n → ∀ name pwd,
    ⟨name, pwd, n⟩ ∈ m.clients ↔ f.registered.lookup name = some pwd

/-- The tables agree, up to the commands that are under way. -/
structure Agreed (id : ι → Int) (s : Cluster ι) : Prop where
  names : s.master.names.Nodup
  owners : ∀ cr ∈ s.master.clients, ∃ i, (s.servers i).node = some cr.owner
  fresh : ∀ i n, (s.servers i).node = some n → n < s.master.made
  unique : ∀ i j n, (s.servers i).node = some n → (s.servers j).node = some n → i = j
  objects : (s.master.fsnodes.map FileServerNode.object).Nodup
  nodes : ∀ fsn, fsn ∈ s.master.fsnodes ↔
    ∃ i, fsn.id = id i ∧ (s.servers i).node = some fsn.object
  spelled : ∀ i, (s.servers i).Spelled
  sound : ∀ i, (s.servers i).Sound
  away : ∀ i, (s.servers i).Away
  agreed : ∀ i, Matches s.master (s.servers i)

theorem put_self {m : MasterServer} {f : DropboxFileServer} : (s.put m i f).servers i = f :=
  Function.update_self ..

theorem put_of_ne {m : MasterServer} {f : DropboxFileServer} (h : j ≠ i) :
    (s.put m i f).servers j = s.servers j := Function.update_of_ne h ..

/-- The other file servers are as before. -/
theorem forall_put {m : MasterServer} {f : DropboxFileServer} {P : ι → DropboxFileServer → Prop}
    (hself : P i f) (hother : ∀ j, j ≠ i → P j (s.servers j)) :
    ∀ j, P j ((s.put m i f).servers j) := by
  intro j
  by_cases hj : j = i
  · rw [hj, put_self]
    exact hself
  · rw [put_of_ne hj]
    exact hother j hj

theorem exists_put {m : MasterServer} {f : DropboxFileServer} {n : Nat}
    (hnode : f.node = (s.servers i).node) :
    ((s.put m i f).servers j).node = some n ↔ (s.servers j).node = some n := by
  by_cases hj : j = i
  · rw [hj, put_self, hnode]
  · rw [put_of_ne hj]

/-- The master does not notice the step. -/
theorem Agreed.of_private {f : DropboxFileServer} (h : Agreed id s)
    (hconnected : (s.servers i).node ≠ none) (hf : (s.servers i).Private f) :
    Agreed id (s.put s.master i f) := by
  have hnode (j : ι) (n : Nat) := exists_put (s := s) (j := j) (m := s.master) (n := n) hf.node
  refine ⟨h.names, ?_, ?_, ?_, h.objects, ?_, ?_, ?_, ?_, ?_⟩
  · intro cr hcr
    obtain ⟨j, hj⟩ := h.owners cr hcr
    exact ⟨j, (hnode j _).mpr hj⟩
  · exact fun j n hj => h.fresh j n ((hnode j n).mp hj)
  · exact fun j k n hj hk => h.unique j k n ((hnode j n).mp hj) ((hnode k n).mp hk)
  · intro fsn
    simp only [hnode]
    exact h.nodes fsn
  · exact forall_put (hf.spelled (h.spelled i)) fun j _ => h.spelled j
  · exact forall_put hf.sound fun j _ => h.sound j
  · refine forall_put (fun hnone => ?_) fun j _ => h.away j
    rw [hf.node] at hnone
    exact absurd hnone hconnected
  · refine forall_put (fun n hn name pwd => ?_) fun j _ => h.agreed j
    rw [hf.registered]
    exact h.agreed i n (hf.node.symm.trans hn) name pwd

/-- A file server starts. -/
theorem Agreed.of_load {clients : ClientTable} (h : Agreed id s) (hnode : (s.servers i).node = none)
    (htokens : ∀ name password, clients.lookup name = some password →
      IsToken name ∧ IsToken password) :
    Agreed id (s.put s.master i { s.servers i with clients := clients }) := by
  set f : DropboxFileServer := { s.servers i with clients := clients }
  have hidle : f.thread = .idle := h.away i hnode
  have hnode' (j : ι) (n : Nat) := exists_put (s := s) (j := j) (m := s.master) (n := n)
    (show f.node = (s.servers i).node from rfl)
  refine ⟨h.names, ?_, ?_, ?_, h.objects, ?_, ?_, ?_, ?_, ?_⟩
  · intro cr hcr
    obtain ⟨j, hj⟩ := h.owners cr hcr
    exact ⟨j, (hnode' j _).mpr hj⟩
  · exact fun j n hj => h.fresh j n ((hnode' j n).mp hj)
  · exact fun j k n hj hk => h.unique j k n ((hnode' j n).mp hj) ((hnode' k n).mp hk)
  · intro fsn
    simp only [hnode']
    exact h.nodes fsn
  · exact forall_put htokens fun j _ => h.spelled j
  · exact forall_put (DropboxFileServer.sound_of_idle hidle) fun j _ => h.sound j
  · exact forall_put (fun _ => hidle) fun j _ => h.away j
  · refine forall_put (fun n hn => ?_) fun j _ => h.agreed j
    rw [show f.node = none from hnode] at hn
    cases hn

/-- The master changes only records of one file server. -/
structure Serves (m m' : MasterServer) (n : Nat) : Prop where
  fsnodes : m'.fsnodes = m.fsnodes
  made : m'.made = m.made
  names : m'.names.Nodup
  others : ∀ cr, cr.owner ≠ n → (cr ∈ m'.clients ↔ cr ∈ m.clients)

/-- The line of a command is handled right. -/
theorem Agreed.of_serves {m : MasterServer} {thread : Thread} (h : Agreed id s)
    (hnode : (s.servers i).node = some n) (hm : Serves s.master m n)
    (hsound : DropboxFileServer.Sound { s.servers i with thread := thread })
    (hmatches : Matches m { s.servers i with thread := thread }) :
    Agreed id (s.put m i { s.servers i with thread := thread }) := by
  set f : DropboxFileServer := { s.servers i with thread := thread }
  have hnode' (j : ι) (n : Nat) := exists_put (s := s) (j := j) (m := m) (n := n)
    (show f.node = (s.servers i).node from rfl)
  refine ⟨hm.names, ?_, ?_, ?_, ?_, ?_, ?_, ?_, ?_, ?_⟩
  · intro cr hcr
    by_cases howner : cr.owner = n
    · exact ⟨i, (hnode' i _).mpr (howner ▸ hnode)⟩
    · obtain ⟨j, hj⟩ := h.owners cr ((hm.others cr howner).mp hcr)
      exact ⟨j, (hnode' j _).mpr hj⟩
  · intro j k hj
    change k < m.made
    rw [hm.made]
    exact h.fresh j k ((hnode' j k).mp hj)
  · exact fun j k n hj hk => h.unique j k n ((hnode' j n).mp hj) ((hnode' k n).mp hk)
  · change (m.fsnodes.map FileServerNode.object).Nodup
    rw [hm.fsnodes]
    exact h.objects
  · intro fsn
    simp only [hnode']
    change fsn ∈ m.fsnodes ↔ _
    rw [hm.fsnodes]
    exact h.nodes fsn
  · exact forall_put (h.spelled i) fun j _ => h.spelled j
  · exact forall_put hsound fun j _ => h.sound j
  · refine forall_put (fun hnone => ?_) fun j _ => h.away j
    rw [show f.node = some n from hnode] at hnone
    cases hnone
  · refine forall_put hmatches fun j hj k hk name pwd => ?_
    have hne : k ≠ n := by
      rintro rfl
      exact hj (h.unique j i k hk hnode)
    exact (hm.others _ hne).trans (h.agreed j k hk name pwd)

theorem Serves.refl (h : m.names.Nodup) : Serves m m n := ⟨rfl, rfl, h, fun _ _ => .rfl⟩

/-- A client that is in no table is added. -/
theorem serves_add (h : m.names.Nodup) (hname : name ∉ m.names) :
    Serves m { m with clients := m.clients ++ [⟨name, pwd, n⟩] } n := by
  refine ⟨rfl, rfl, ?_, fun cr hcr => ?_⟩
  · have hnames : MasterServer.names { m with clients := m.clients ++ [⟨name, pwd, n⟩] } =
        m.names ++ [name] := List.map_append
    rw [hnames]
    exact List.nodup_append_comm.mp (List.nodup_cons.mpr ⟨hname, h⟩)
  · rw [List.mem_append, List.mem_singleton]
    refine or_iff_left ?_
    rintro rfl
    exact hcr rfl

/-- A client of the file server is removed. -/
theorem serves_remove (h : m.names.Nodup)
    (hown : ∀ cr ∈ m.clients, cr.name = name → cr.owner = n) :
    Serves m { m with clients := m.clients.eraseP fun cr => cr.name = name } n := by
  refine ⟨rfl, rfl, ?_, fun cr hcr => ?_⟩
  · exact h.sublist (List.eraseP_sublist.map _)
  · rw [mem_eraseP_of_nodup h]
    exact and_iff_left_of_imp fun hmem heq => hcr (hown cr hmem heq)

/-- The password of a client of the file server is changed. -/
theorem serves_change (h : m.names.Nodup) (hown : ⟨name, oldPassword, n⟩ ∈ m.clients) :
    Serves m { m with clients := (MasterServer.changeLoop name pwd m.clients).2 } n := by
  have howner : ∀ cr ∈ m.clients, cr.name = name → cr.owner = n := by
    intro cr hcr hname
    rw [MasterServer.eq_of_name h hcr hown hname]
  refine ⟨rfl, rfl, ?_, fun cr hcr => ?_⟩
  · have hnames : MasterServer.names
        { m with clients := (MasterServer.changeLoop name pwd m.clients).2 } = m.names :=
      MasterServer.changeLoop_names
    rw [hnames]
    exact h
  · rw [MasterServer.mem_changeLoop h]
    constructor
    · rintro (⟨hmem, -⟩ | ⟨old, hold, hname, rfl⟩)
      · exact hmem
      · exact absurd (howner old hold hname) hcr
    · exact fun hmem => .inl ⟨hmem, fun hname => hcr (howner cr hmem hname)⟩

omit [DecidableEq ι] in
/-- The master handles the line of a command. -/
theorem serves_accept {m : MasterServer} (h : Agreed id s) (hnode : (s.servers i).node = some n)
    (hthread : (s.servers i).thread = .asking call str) (hok : s.master.Owns n str)
    (haccept : s.master.accept n str = (some reply, m)) :
    Serves s.master m n ∧
      DropboxFileServer.Sound { s.servers i with thread := .told call reply } ∧
      Matches m { s.servers i with thread := .told call reply } := by
  have hsound := h.sound i
  have hmatches : ∀ name pwd, ⟨name, pwd, n⟩ ∈ s.master.clients ↔ _ := h.agreed i n hnode
  rw [DropboxFileServer.Sound, hthread] at hsound
  simp only [DropboxFileServer.registered, hthread] at hmatches
  cases call with
  | add name =>
      have hagreed : ∀ name' pwd', ⟨name', pwd', n⟩ ∈ s.master.clients ↔
        ((s.servers i).clients.erase name).lookup name' = some pwd' := hmatches
      obtain ⟨password, hlookup, rfl⟩ := hsound
      obtain ⟨hname, hpassword⟩ := h.spelled i name password hlookup
      rw [MasterServer.accept_add hname hpassword] at haccept
      split at haccept
      · cases haccept
        refine ⟨.refl h.names, trivial, fun k hk name' pwd' => ?_⟩
        obtain rfl : n = k := Option.some.inj (hnode.symm.trans hk)
        exact hagreed name' pwd'
      · rename_i hmem
        cases haccept
        refine ⟨serves_add h.names hmem, trivial, fun k hk name' pwd' => ?_⟩
        obtain rfl : n = k := Option.some.inj (hnode.symm.trans hk)
        change _ ↔ (s.servers i).clients.lookup name' = some pwd'
        rw [List.mem_append, List.mem_singleton, hagreed, DropboxFileServer.lookup_erase]
        split
        · rename_i heq
          rw [heq, hlookup]
          constructor
          · rintro (hnone | heq')
            · cases hnone
            · cases heq'
              rfl
          · intro heq'
            cases heq'
            exact .inr rfl
        · rename_i hne
          refine or_iff_left ?_
          rintro heq'
          cases heq'
          exact hne rfl
  | remove name =>
      have hagreed : ∀ name' pwd', ⟨name', pwd', n⟩ ∈ s.master.clients ↔
        (s.servers i).clients.lookup name' = some pwd' := hmatches
      obtain ⟨hname, rfl⟩ := hsound
      have htokens := MasterServer.tokens_remove hname
      have hown := hok name htokens
      rw [MasterServer.accept_remove htokens] at haccept
      split at haccept
      · cases haccept
        refine ⟨serves_remove h.names hown, trivial, fun k hk name' pwd' => ?_⟩
        obtain rfl : n = k := Option.some.inj (hnode.symm.trans hk)
        change _ ↔ ((s.servers i).clients.erase name).lookup name' = some pwd'
        rw [mem_eraseP_of_nodup h.names, hagreed, DropboxFileServer.lookup_erase]
        split
        · rename_i heq
          refine iff_of_false (fun hand => hand.2 heq) ?_
          rintro ⟨⟩
        · rename_i hne
          exact and_iff_left hne
      · rename_i hmem
        cases haccept
        refine ⟨.refl h.names, trivial, fun k hk name' pwd' => ?_⟩
        obtain rfl : n = k := Option.some.inj (hnode.symm.trans hk)
        exact hagreed name' pwd'
  | change name oldPassword password =>
      have hagreed : ∀ name' pwd', ⟨name', pwd', n⟩ ∈ s.master.clients ↔
        ((s.servers i).clients.insert name oldPassword).lookup name' = some pwd' := hmatches
      obtain ⟨hlookup, ⟨hname, hold⟩, rfl⟩ := hsound
      have hpassword := (h.spelled i name password hlookup).2
      have hown : ⟨name, oldPassword, n⟩ ∈ s.master.clients :=
        (hagreed name oldPassword).mpr (AList.lookup_insert _)
      have hmem : name ∈ s.master.names := MasterServer.mem_names.mpr ⟨_, hown, rfl⟩
      rw [MasterServer.accept_change hname hpassword hmem] at haccept
      cases haccept
      refine ⟨serves_change h.names hown, ⟨hlookup, hname, hold⟩, fun k hk name' pwd' => ?_⟩
      obtain rfl : n = k := Option.some.inj (hnode.symm.trans hk)
      change _ ↔ (s.servers i).clients.lookup name' = some pwd'
      rw [MasterServer.mem_changeLoop h.names, hagreed, DropboxFileServer.lookup_insert]
      by_cases heq : name' = name
      · rw [if_pos heq, heq, hlookup]
        constructor
        · rintro (⟨-, hne⟩ | ⟨old, -, -, hrecord⟩)
          · exact absurd rfl hne
          · rw [(ClientRecord.mk.inj hrecord).2.1]
        · rintro hpwd
          cases hpwd
          exact .inr ⟨_, hown, rfl, rfl⟩
      · rw [if_neg heq]
        constructor
        · rintro (⟨hin, -⟩ | ⟨old, -, hname', hrecord⟩)
          · exact hin
          · exact absurd ((ClientRecord.mk.inj hrecord).1.trans hname') heq
        · exact fun hin => .inl ⟨hin, heq⟩

/-- The connection of a file server ends. -/
theorem Agreed.of_disconnect (h : Agreed id s) (hnode : (s.servers i).node = some n) :
    Agreed id (s.put (s.master.removeDead n) i
      { s.servers i with node := none, thread := .idle }) := by
  set f : DropboxFileServer := { s.servers i with node := none, thread := .idle }
  have hnode' : ∀ j k, ((s.put (s.master.removeDead n) i f).servers j).node = some k ↔
      (s.servers j).node = some k ∧ k ≠ n := by
    intro j k
    by_cases hj : j = i
    · rw [hj, put_self, hnode]
      refine iff_of_false (by rintro ⟨⟩) fun hand => hand.2 (Option.some.inj hand.1).symm
    · rw [put_of_ne hj]
      refine (and_iff_left_of_imp fun hk => ?_).symm
      rintro rfl
      exact hj (h.unique j i k hk hnode)
  have hclients : ∀ cr, cr ∈ (s.master.removeDead n).clients ↔
      cr ∈ s.master.clients ∧ cr.owner ≠ n := by
    intro cr
    rw [MasterServer.removeDead, List.mem_filter, decide_eq_true_eq]
  have hfsnodes : ∀ fsn, fsn ∈ (s.master.removeDead n).fsnodes ↔
      fsn ∈ s.master.fsnodes ∧ fsn.object ≠ n := fun fsn => mem_eraseP_of_nodup h.objects
  refine ⟨?_, ?_, ?_, ?_, ?_, ?_, ?_, ?_, ?_, ?_⟩
  · exact h.names.sublist (List.filter_sublist.map _)
  · intro cr hcr
    obtain ⟨hmem, hne⟩ := (hclients cr).mp hcr
    obtain ⟨j, hj⟩ := h.owners cr hmem
    exact ⟨j, (hnode' j _).mpr ⟨hj, hne⟩⟩
  · exact fun j k hj => h.fresh j k ((hnode' j k).mp hj).1
  · exact fun j k l hj hk => h.unique j k l ((hnode' j l).mp hj).1 ((hnode' k l).mp hk).1
  · exact h.objects.sublist (List.eraseP_sublist.map _)
  · intro fsn
    simp only [hnode', ← and_assoc, exists_and_right]
    rw [← h.nodes fsn]
    exact hfsnodes fsn
  · exact forall_put (h.spelled i) fun j _ => h.spelled j
  · exact forall_put trivial fun j _ => h.sound j
  · exact forall_put (fun _ => rfl) fun j _ => h.away j
  · refine forall_put (fun k hk => by cases hk) fun j hj k hk name pwd => ?_
    refine (hclients _).trans ((and_iff_left ?_).trans (h.agreed j k hk name pwd))
    rintro rfl
    exact hj (h.unique j i k hk hnode)

theorem mem_entries {table : ClientTable} : ⟨name, pwd⟩ ∈ table.entries ↔
    table.lookup name = some pwd := AList.mem_lookup_iff.symm

omit [DecidableEq ι] in
/-- What a successful registration does. -/
theorem Agreed.register {m : MasterServer} {fsn : FileServerNode} (hid : Function.Injective id)
    (h : Agreed id s) (hnode : (s.servers i).node = none)
    (hidentify : s.master.identify (id i) (s.servers i).entries = (true, m))
    (huser : m.findFileServer (id i) = some fsn) :
    fsn.object = s.master.made ∧ m.made = s.master.made + 1 ∧ m.names.Nodup ∧
      m.fsnodes = s.master.fsnodes ++ [⟨s.master.made, id i⟩] ∧
      ∀ cr, cr ∈ m.clients ↔ cr ∈ s.master.clients ∨
        cr.owner = s.master.made ∧ (s.servers i).clients.lookup cr.name = some cr.password := by
  rw [MasterServer.identify] at hidentify
  rcases hload : MasterServer.loadEntries s.master.made (s.servers i).entries
    { s.master with made := s.master.made + 1 } with ⟨loaded, m₁⟩
  rw [hload] at hidentify
  cases loaded with
  | false => cases hidentify
  | true =>
      cases hidentify
      have hentries : MasterServer.loadEntries s.master.made
          ((s.servers i).clients.entries.flatMap fun e => [e.1, e.2])
          { s.master with made := s.master.made + 1 } = (true, m₁) := hload
      obtain ⟨rfl, hnodup⟩ := MasterServer.loadEntries_ok
        (m := { s.master with made := s.master.made + 1 }) h.names hentries
      have hnone : ∀ fsn' ∈ s.master.fsnodes, fsn'.id ≠ id i := by
        intro fsn' hmem heq
        obtain ⟨j, hj, hnode'⟩ := (h.nodes fsn').mp hmem
        obtain rfl : j = i := hid (hj.symm.trans heq)
        rw [hnode] at hnode'
        cases hnode'
      have hfirst : s.master.fsnodes.find? (fun fsn => fsn.id = id i) = none := by
        rw [List.find?_eq_none]
        intro fsn' hmem
        rw [decide_eq_true_eq]
        exact hnone fsn' hmem
      rw [MasterServer.findFileServer, List.find?_append, hfirst, Option.none_or,
        List.find?_cons_of_pos (p := fun fsn : FileServerNode => decide (fsn.id = id i))
          (decide_eq_true rfl)] at huser
      cases huser
      refine ⟨rfl, rfl, hnodup, rfl, fun cr => ?_⟩
      rw [List.mem_append, List.mem_map]
      refine or_congr_right ?_
      constructor
      · rintro ⟨e, he, rfl⟩
        exact ⟨rfl, mem_entries.mp he⟩
      · rintro ⟨howner, hlookup⟩
        refine ⟨⟨cr.name, cr.password⟩, mem_entries.mpr hlookup, ?_⟩
        rw [← howner]

/-- A file server registers. -/
theorem Agreed.of_register {m : MasterServer} {fsn : FileServerNode} (hid : Function.Injective id)
    (h : Agreed id s) (hnode : (s.servers i).node = none)
    (hidentify : s.master.identify (id i) (s.servers i).entries = (true, m))
    (huser : m.findFileServer (id i) = some fsn) :
    Agreed id (s.put m i { s.servers i with node := some fsn.object, thread := .idle }) := by
  obtain ⟨hobject, hmade, hnames, hfsnodes, hclients⟩ := h.register hid hnode hidentify huser
  set f : DropboxFileServer := { s.servers i with node := some fsn.object, thread := .idle }
  have hfnode : f.node = some s.master.made := congrArg some hobject
  have hnode' : ∀ j k, ((s.put m i f).servers j).node = some k ↔
      (s.servers j).node = some k ∨ j = i ∧ k = s.master.made := by
    intro j k
    by_cases hj : j = i
    · rw [hj, put_self, hfnode, hnode]
      constructor
      · rintro heq
        exact .inr ⟨rfl, (Option.some.inj heq).symm⟩
      · rintro (hnone | ⟨-, rfl⟩)
        · cases hnone
        · rfl
    · rw [put_of_ne hj]
      exact (or_iff_left fun hand => hj hand.1).symm
  have howner : ∀ cr ∈ s.master.clients, cr.owner ≠ s.master.made := by
    intro cr hcr heq
    obtain ⟨j, hj⟩ := h.owners cr hcr
    exact absurd (h.fresh j _ hj) (by rw [heq]; exact Nat.lt_irrefl _)
  have hobjects : ∀ fsn' ∈ s.master.fsnodes, fsn'.object < s.master.made := by
    intro fsn' hmem
    obtain ⟨j, -, hj⟩ := (h.nodes fsn').mp hmem
    exact h.fresh j _ hj
  refine ⟨hnames, ?_, ?_, ?_, ?_, ?_, ?_, ?_, ?_, ?_⟩
  · intro cr hcr
    rcases (hclients cr).mp hcr with hcr | ⟨heq, -⟩
    · obtain ⟨j, hj⟩ := h.owners cr hcr
      exact ⟨j, (hnode' j _).mpr (.inl hj)⟩
    · exact ⟨i, (hnode' i _).mpr (.inr ⟨rfl, heq⟩)⟩
  · intro j k hj
    change k < m.made
    rw [hmade]
    rcases (hnode' j k).mp hj with hj | ⟨-, rfl⟩
    · exact Nat.lt_succ_of_lt (h.fresh j k hj)
    · exact Nat.lt_succ_self _
  · intro j k l hj hk
    rcases (hnode' j l).mp hj with hj | ⟨rfl, rfl⟩
    · rcases (hnode' k l).mp hk with hk | ⟨-, rfl⟩
      · exact h.unique j k l hj hk
      · exact absurd (h.fresh j _ hj) (Nat.lt_irrefl _)
    · rcases (hnode' k _).mp hk with hk | ⟨rfl, -⟩
      · exact absurd (h.fresh k _ hk) (Nat.lt_irrefl _)
      · rfl
  · change (m.fsnodes.map FileServerNode.object).Nodup
    rw [hfsnodes, List.map_append]
    refine List.nodup_append_comm.mp (List.nodup_cons.mpr ⟨?_, h.objects⟩)
    intro hmem
    obtain ⟨fsn', hfsn', heq⟩ := List.mem_map.mp hmem
    exact absurd (hobjects fsn' hfsn') (by rw [heq]; exact Nat.lt_irrefl _)
  · intro fsn'
    change fsn' ∈ m.fsnodes ↔ _
    rw [hfsnodes, List.mem_append, List.mem_singleton, h.nodes fsn']
    simp only [hnode']
    constructor
    · rintro (⟨j, hj, hj'⟩ | rfl)
      · exact ⟨j, hj, .inl hj'⟩
      · exact ⟨i, rfl, .inr ⟨rfl, rfl⟩⟩
    · rintro ⟨j, hj, hj' | ⟨rfl, hobject'⟩⟩
      · exact .inl ⟨j, hj, hj'⟩
      · refine .inr ?_
        obtain ⟨object, id'⟩ := fsn'
        rw [show object = _ from hobject', show id' = _ from hj]
  · exact forall_put (h.spelled i) fun j _ => h.spelled j
  · exact forall_put trivial fun j _ => h.sound j
  · exact forall_put (fun hnone => by cases hnone) fun j _ => h.away j
  · refine forall_put (fun k hk name pwd => ?_) fun j hj k hk name pwd => ?_
    · rw [hfnode] at hk
      obtain rfl := Option.some.inj hk
      refine (hclients _).trans ((or_iff_right fun hmem => howner _ hmem rfl).trans ?_)
      exact and_iff_right rfl
    · refine (hclients _).trans ((or_iff_left ?_).trans (h.agreed j k hk name pwd))
      rintro ⟨rfl, -⟩
      exact absurd (h.fresh j _ hk) (Nat.lt_irrefl _)

omit [DecidableEq ι] in
theorem Agreed.init (maxClientNum : ι → Nat) :
    Agreed id ⟨⟨[], [], 0⟩, fun i => ⟨∅, maxClientNum i, none, .idle⟩⟩ where
  names := List.nodup_nil
  owners := nofun
  fresh := nofun
  unique := nofun
  objects := List.nodup_nil
  nodes fsn := iff_of_false List.not_mem_nil (by rintro ⟨i, -, ⟨⟩⟩)
  spelled := nofun
  sound _ := trivial
  away _ _ := rfl
  agreed := nofun

theorem Agreed.step (hid : Function.Injective id) (h : Agreed id s)
    (hstep : Step MasterServer.Owns id i s s') : Agreed id s' := by
  have hconnected : (s.servers i).thread ≠ .idle → (s.servers i).node ≠ none := fun hthread hnode =>
    hthread (h.away i hnode)
  cases hstep with
  | load hnode htokens => exact h.of_load hnode htokens
  | register hnode hidentify huser => exact h.of_register hid hnode hidentify huser
  | command hnode hthread =>
      refine h.of_private ?_ (DropboxFileServer.private_parse hthread _)
      rw [hnode]
      exact Option.some_ne_none _
  | handle hnode hthread hok haccept =>
      obtain ⟨hserves, hsound, hmatches⟩ := serves_accept h hnode hthread hok haccept
      exact h.of_serves hnode hserves hsound hmatches
  | answer hthread =>
      refine h.of_private (hconnected ?_) (DropboxFileServer.private_answer hthread (h.sound i))
      rw [hthread]
      rintro ⟨⟩
  | retry hthread =>
      refine h.of_private (hconnected ?_) (DropboxFileServer.private_retry hthread (h.sound i))
      rw [hthread]
      rintro ⟨⟩
  | disconnect hnode => exact h.of_disconnect hnode

theorem Agreed.reached (hid : Function.Injective id) (h : Reached MasterServer.Owns id s) :
    Agreed id s := by
  induction h with
  | init maxClientNum => exact .init maxClientNum
  | step _ hstep ih => exact ih.step hid hstep

/-- A step of a file server leaves the records of the others as they are. -/
theorem Agreed.others (hid : Function.Injective id) (h : Agreed id s)
    (hstep : Step MasterServer.Owns id i s s') (hj : j ≠ i) (hnode : (s.servers j).node = some n)
    {cr : ClientRecord} (hcr : cr.owner = n) :
    cr ∈ s'.master.clients ↔ cr ∈ s.master.clients := by
  have hne : ∀ k, (s.servers i).node = some k → cr.owner ≠ k := by
    rintro k hk rfl
    exact hj (h.unique j i _ (hcr ▸ hnode) hk)
  cases hstep with
  | load _ _ => exact .rfl
  | register hi hidentify huser =>
      obtain ⟨-, -, -, -, hclients⟩ := h.register hid hi hidentify huser
      refine (hclients cr).trans (or_iff_left fun hand => ?_)
      exact absurd (h.fresh j n hnode) (by rw [← hcr, hand.1]; exact Nat.lt_irrefl _)
  | command _ _ => exact .rfl
  | handle hi hthread hok haccept =>
      exact (serves_accept h hi hthread hok haccept).1.others cr (hne _ hi)
  | answer _ => exact .rfl
  | retry _ => exact .rfl
  | disconnect hi =>
      refine List.mem_filter.trans (and_iff_left ?_)
      exact decide_eq_true (hne _ hi)

end Cluster

/-- If no file server asks for the removal of a client of another one, the master's records of a
connected file server that has no command under way are its table, the names in them are
different, their owners are connected, and no step touches the records of another file server. A
line touches those of another file server exactly if it asks for that. -/
theorem accounts_agree {ι : Type} [DecidableEq ι] {id : ι → Int} (hid : Function.Injective id)
    {s : Cluster ι} (h : Cluster.Reached MasterServer.Owns id s) :
    (∀ i n, (s.servers i).node = some n → (s.servers i).thread = .idle → ∀ name pwd,
      ⟨name, pwd, n⟩ ∈ s.master.clients ↔ (s.servers i).clients.lookup name = some pwd) ∧
    s.master.names.Nodup ∧
    (∀ cr ∈ s.master.clients, ∃ i, (s.servers i).node = some cr.owner ∧
      ⟨cr.owner, id i⟩ ∈ s.master.fsnodes) ∧
    (∀ i s', Cluster.Step MasterServer.Owns id i s s' → ∀ j n, j ≠ i →
      (s.servers j).node = some n → ∀ cr : ClientRecord, cr.owner = n →
        (cr ∈ s'.master.clients ↔ cr ∈ s.master.clients)) ∧
    ∀ i n call str reply m, (s.servers i).node = some n →
      (s.servers i).thread = .asking call str → s.master.accept n str = (some reply, m) →
      ((∀ cr : ClientRecord, cr.owner ≠ n → (cr ∈ m.clients ↔ cr ∈ s.master.clients)) ↔
        s.master.Owns n str) := by
  have hagreed := Cluster.Agreed.reached hid h
  refine ⟨?_, hagreed.names, ?_, ?_, ?_⟩
  · intro i n hnode hidle name pwd
    rw [hagreed.agreed i n hnode, DropboxFileServer.registered_of_idle hidle]
  · intro cr hcr
    obtain ⟨i, hi⟩ := hagreed.owners cr hcr
    exact ⟨i, hi, (hagreed.nodes _).mpr ⟨i, rfl, hi⟩⟩
  · intro i s' hstep j n hj hnode cr hcr
    exact hagreed.others hid hstep hj hnode hcr
  · intro i n call str reply m hnode hthread haccept
    constructor
    · intro hothers name htokens cr hcr hname
      by_contra howner
      have hmem : name ∈ s.master.names := MasterServer.mem_names.mpr ⟨cr, hcr, hname⟩
      rw [MasterServer.accept_remove htokens, if_pos hmem] at haccept
      cases haccept
      have hleft := (hothers cr howner).mpr hcr
      exact ((mem_eraseP_of_nodup hagreed.names).mp hleft).2 hname
    · intro hok
      exact (Cluster.serves_accept hagreed hnode hthread hok haccept).1.others

/-! ### Two file servers -/

def twoServers (m : MasterServer) (first second : DropboxFileServer) : Cluster Bool :=
  ⟨m, fun i => if i then second else first⟩

def twoIds (i : Bool) : Int := if i then 2 else 1

def bob : JString := java "bob"

/-- A file server with a client. -/
def bobServer (node : Option Nat) : DropboxFileServer :=
  ⟨AList.singleton bob defaultPwd, 3, node, .idle⟩

def emptyServer (node : Option Nat) (thread : Thread) : DropboxFileServer := ⟨∅, 3, node, thread⟩

theorem twoIds_injective : Function.Injective twoIds := by
  intro i j h
  cases i <;> cases j <;> cases h <;> rfl

theorem put_first {m m' : MasterServer} {f f' g : DropboxFileServer} :
    (twoServers m f g).put m' false f' = twoServers m' f' g := by
  refine congrArg (Cluster.mk m') (funext fun i => ?_)
  cases i <;> rfl

theorem put_second {m m' : MasterServer} {f g g' : DropboxFileServer} :
    (twoServers m f g).put m' true g' = twoServers m' f g' := by
  refine congrArg (Cluster.mk m') (funext fun i => ?_)
  cases i <;> rfl

/-- The first file server has a client and registers. -/
theorem bob_registers (ok : MasterServer → Nat → JString → Prop) : Cluster.Reached ok twoIds
    (twoServers ⟨[⟨bob, defaultPwd, 0⟩], [⟨0, 1⟩], 1⟩ (bobServer (some 0))
      (emptyServer none .idle)) := by
  have hinit : Cluster.Reached ok twoIds (twoServers ⟨[], [], 0⟩ (emptyServer none .idle)
      (emptyServer none .idle)) := by
    have hstart : twoServers ⟨[], [], 0⟩ (emptyServer none .idle) (emptyServer none .idle) =
        ⟨⟨[], [], 0⟩, fun _ => ⟨∅, 3, none, .idle⟩⟩ := by
      refine congrArg (Cluster.mk _) (funext fun i => ?_)
      cases i <;> rfl
    rw [hstart]
    exact .init fun _ => 3
  have htokens : ∀ name password, (AList.singleton bob defaultPwd : ClientTable).lookup name =
      some password → IsToken name ∧ IsToken password := by
    intro name password hlookup
    have hmem := Cluster.mem_entries.mpr hlookup
    cases List.mem_singleton.mp hmem
    exact ⟨by decide, by decide⟩
  have hload := hinit.step (i := false) (.load rfl htokens)
  rw [put_first] at hload
  have hregister := hload.step (i := false)
    (.register (m := ⟨[⟨bob, defaultPwd, 0⟩], [⟨0, 1⟩], 1⟩) rfl rfl rfl)
  rw [put_first] at hregister
  exact hregister

theorem accounts_agree_bob :
    ⟨bob, defaultPwd, 0⟩ ∈ [(⟨bob, defaultPwd, 0⟩ : ClientRecord)] ↔
      (bobServer (some 0)).clients.lookup bob = some defaultPwd :=
  (accounts_agree twoIds_injective (bob_registers _)).1 false 0 rfl rfl bob defaultPwd

/-- The second file server removes the client of the first one. -/
theorem bob_removed : ∃ s : Cluster Bool, Cluster.Reached (fun _ _ _ => True) twoIds s ∧
    (s.servers false).node = some 0 ∧ (s.servers false).thread = .idle ∧
    (s.servers false).clients.lookup bob = some defaultPwd ∧ s.master.clients = [] := by
  have hregister := (bob_registers fun _ _ _ => True).step (i := true)
    (.register (m := ⟨[⟨bob, defaultPwd, 0⟩], [⟨0, 1⟩, ⟨1, 2⟩], 2⟩) rfl rfl rfl)
  rw [put_second] at hregister
  have hcommand : Cluster.Reached (fun _ _ _ => True) twoIds
      ((twoServers _ _ (emptyServer (some 1) .idle)).put _ true
        ((emptyServer (some 1) .idle).parse ⟨false, true, true⟩ (unwords [java "-r", bob]))) :=
    hregister.step (.command (n := 1) rfl rfl)
  rw [put_second] at hcommand
  have hhandle := hcommand.step (i := true) (.handle (n := 1) rfl rfl trivial rfl)
  exact ⟨_, hhandle, rfl, rfl, rfl, rfl⟩

end CodingSample.Dropbox
