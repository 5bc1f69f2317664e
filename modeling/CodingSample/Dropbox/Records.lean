import CodingSample.Dropbox.Accounts
import Mathlib.Data.List.Nodup

/-!
# The records of the master

What the operations of the master do to its records, and how it handles the lines of the commands.
-/

namespace CodingSample.Dropbox

variable {m m' : MasterServer} {name pwd str : JString} {node : Nat} {cr : ClientRecord}
  {l : List ClientRecord}

/-- What is left when the only element with a key is removed. -/
theorem mem_eraseP_of_nodup {α β : Type} [DecidableEq β] {key : α → β} {b : β} {a : α} {l : List α}
    (h : (l.map key).Nodup) : a ∈ l.eraseP (fun x => key x = b) ↔ a ∈ l ∧ key a ≠ b := by
  induction l with
  | nil => exact iff_of_false List.not_mem_nil fun ha => List.not_mem_nil ha.1
  | cons x l ih =>
      obtain ⟨hx, hl⟩ := List.nodup_cons.mp h
      by_cases hkey : key x = b
      · rw [List.eraseP_cons_of_pos (p := fun x => decide (key x = b)) (decide_eq_true hkey),
          List.mem_cons]
        constructor
        · intro ha
          refine ⟨.inr ha, fun hab => hx ?_⟩
          rw [hkey, ← hab]
          exact List.mem_map_of_mem ha
        · rintro ⟨rfl | ha, hne⟩
          · exact absurd hkey hne
          · exact ha
      · rw [List.eraseP_cons_of_neg (p := fun x => decide (key x = b)) (by rwa [decide_eq_true_eq]),
          List.mem_cons, List.mem_cons, ih hl]
        constructor
        · rintro (rfl | ⟨ha, hne⟩)
          · exact ⟨.inl rfl, hkey⟩
          · exact ⟨.inr ha, hne⟩
        · rintro ⟨rfl | ha, hne⟩
          · exact .inl rfl
          · exact .inr ⟨ha, hne⟩

/-- The names of the clients of the master. -/
def MasterServer.names (m : MasterServer) : List JString := m.clients.map ClientRecord.name

namespace MasterServer

theorem mem_names : name ∈ m.names ↔ ∃ cr ∈ m.clients, cr.name = name := List.mem_map

theorem clientExist_iff : m.clientExist name = true ↔ name ∈ m.names := by
  rw [mem_names, clientExist, List.any_eq_true]
  simp only [decide_eq_true_eq]

/-- Two records of one name are the same. -/
theorem eq_of_name (h : m.names.Nodup) {cr cr' : ClientRecord} (hcr : cr ∈ m.clients)
    (hcr' : cr' ∈ m.clients) (hname : cr.name = cr'.name) : cr = cr' :=
  List.inj_on_of_nodup_map h hcr hcr' hname

theorem addClient_of_mem (h : name ∈ m.names) : m.addClient name pwd node = (false, m) :=
  if_pos (clientExist_iff.mpr h)

theorem addClient_of_not_mem (h : name ∉ m.names) : m.addClient name pwd node =
    (true, { m with clients := m.clients ++ [⟨name, pwd, node⟩] }) :=
  if_neg fun hexist => h (clientExist_iff.mp hexist)

theorem removeClient_of_mem (h : name ∈ m.names) : m.removeClient name =
    (true, { m with clients := m.clients.eraseP fun cr => cr.name = name }) :=
  if_pos (clientExist_iff.mpr h)

theorem removeClient_of_not_mem (h : name ∉ m.names) : m.removeClient name = (false, m) :=
  if_neg fun hexist => h (clientExist_iff.mp hexist)

theorem changeLoop_names : (changeLoop name pwd l).2.map ClientRecord.name =
    l.map ClientRecord.name := by
  induction l with
  | nil => rfl
  | cons cr l ih =>
      rw [changeLoop]
      split
      · rfl
      · rw [List.map_cons, List.map_cons, ← ih]

/-- The password of the client of the name is changed. -/
theorem mem_changeLoop (h : (l.map ClientRecord.name).Nodup) : cr ∈ (changeLoop name pwd l).2 ↔
    (cr ∈ l ∧ cr.name ≠ name) ∨ ∃ old ∈ l, old.name = name ∧ cr = { old with password := pwd } := by
  induction l with
  | nil =>
      refine iff_of_false List.not_mem_nil ?_
      rintro (⟨hcr, -⟩ | ⟨old, hold, -⟩)
      · exact List.not_mem_nil hcr
      · exact List.not_mem_nil hold
  | cons first l ih =>
      obtain ⟨hfirst, hl⟩ := List.nodup_cons.mp h
      rw [changeLoop]
      split
      · rename_i hname
        have hrest : ∀ x ∈ l, x.name ≠ name := by
          intro x hx heq
          refine hfirst ?_
          rw [hname, ← heq]
          exact List.mem_map_of_mem hx
        constructor
        · intro hcr
          rcases List.mem_cons.mp hcr with rfl | hcr
          · exact .inr ⟨first, List.mem_cons_self, hname, rfl⟩
          · exact .inl ⟨List.mem_cons_of_mem first hcr, hrest cr hcr⟩
        · rintro (⟨hcr, hne⟩ | ⟨old, hold, hold', rfl⟩)
          · rcases List.mem_cons.mp hcr with rfl | hcr
            · exact absurd hname hne
            · exact List.mem_cons_of_mem _ hcr
          · rcases List.mem_cons.mp hold with rfl | hold
            · exact List.mem_cons_self
            · exact absurd hold' (hrest old hold)
      · rename_i hname
        rw [List.mem_cons, ih hl]
        constructor
        · rintro (rfl | ⟨hcr, hne⟩ | ⟨old, hold, hold'⟩)
          · exact .inl ⟨List.mem_cons_self, hname⟩
          · exact .inl ⟨List.mem_cons_of_mem first hcr, hne⟩
          · exact .inr ⟨old, List.mem_cons_of_mem first hold, hold'⟩
        · rintro (⟨hcr, hne⟩ | ⟨old, hold, hold'⟩)
          · rcases List.mem_cons.mp hcr with rfl | hcr
            · exact .inl rfl
            · exact .inr (.inl ⟨hcr, hne⟩)
          · rcases List.mem_cons.mp hold with rfl | hold
            · exact absurd hold'.1 hname
            · exact .inr (.inr ⟨old, hold, hold'⟩)

theorem changeLoop_of_mem (h : name ∈ l.map ClientRecord.name) :
    (changeLoop name pwd l).1 = true := by
  induction l with
  | nil => cases h
  | cons first l ih =>
      rw [changeLoop]
      split
      · rfl
      · rename_i hname
        rcases List.mem_cons.mp h with rfl | h
        · exact absurd rfl hname
        · exact ih h

/-- The records that an identification adds. -/
theorem loadEntries_ok {entries : List (Σ _ : JString, JString)} (h : m.names.Nodup)
    (hload : loadEntries node (entries.flatMap fun e => [e.1, e.2]) m = (true, m')) :
    m' = { m with clients := m.clients ++ entries.map fun e => ⟨e.1, e.2, node⟩ } ∧
      m'.names.Nodup := by
  induction entries generalizing m with
  | nil =>
      cases hload
      refine ⟨?_, h⟩
      rw [List.map_nil, List.append_nil]
  | cons e entries ih =>
      rw [List.flatMap_cons] at hload
      change loadEntries node (e.1 :: e.2 :: _) m = _ at hload
      rw [loadEntries] at hload
      by_cases hname : e.1 ∈ m.names
      · rw [addClient_of_mem hname] at hload
        cases hload
      · rw [addClient_of_not_mem hname] at hload
        set m₁ : MasterServer := { m with clients := m.clients ++ [⟨e.1, e.2, node⟩] }
        have hnames : m₁.names = m.names ++ [e.1] := List.map_append
        have hnodup : m₁.names.Nodup := by
          rw [hnames]
          exact List.nodup_append_comm.mp (List.nodup_cons.mpr ⟨hname, h⟩)
        obtain ⟨hm', hnodup'⟩ := ih hnodup hload
        refine ⟨?_, hnodup'⟩
        have hclients : m₁.clients = m.clients ++ [⟨e.1, e.2, node⟩] := rfl
        rw [hm', hclients, List.append_assoc]
        rfl

end MasterServer

/-! ### Lines of a file server -/

namespace MasterServer

/-- The master is asked to remove only clients of the file server that asks. -/
def Owns (m : MasterServer) (node : Nat) (str : JString) : Prop :=
  ∀ name, tokens str = [removeClientHead, name] →
    ∀ cr ∈ m.clients, cr.name = name → cr.owner = node

theorem tokens_line {head : JString} (hhead : IsToken head) (hname : IsToken name)
    (hpwd : IsToken pwd) : tokens (unwords [head, name, pwd]) = [head, name, pwd] := by
  refine tokens_unwords fun word hword => ?_
  simp only [List.mem_cons, List.not_mem_nil, or_false] at hword
  rcases hword with rfl | rfl | rfl
  · exact hhead
  · exact hname
  · exact hpwd

theorem accept_add (hname : IsToken name) (hpwd : IsToken pwd) :
    m.accept node (unwords [addClientHead, name, pwd]) =
      if name ∈ m.names then (some (unwords [errmesHead,
        java "Conflict in adding client, the client name already exists!"]), m)
      else (some confirmHead, { m with clients := m.clients ++ [⟨name, pwd, node⟩] }) := by
  rw [accept, tokens_line (by decide) hname hpwd]
  change (if addClientHead = addClientHead then _ else _) = _
  rw [if_pos rfl]
  dsimp only
  by_cases hmem : name ∈ m.names
  · rw [if_pos hmem, addClient_of_mem hmem]
  · rw [if_neg hmem, addClient_of_not_mem hmem]

theorem tokens_remove (hname : IsToken name) :
    tokens (unwords [removeClientHead, name]) = [removeClientHead, name] := by
  refine tokens_unwords fun word hword => ?_
  simp only [List.mem_cons, List.not_mem_nil, or_false] at hword
  rcases hword with rfl | rfl
  · decide
  · exact hname

theorem accept_remove (htokens : tokens str = [removeClientHead, name]) :
    m.accept node str =
      if name ∈ m.names then
        (some confirmHead, { m with clients := m.clients.eraseP fun cr => cr.name = name })
      else (some (unwords [errmesHead,
        java "Error in removing client, the client name doesn't exist!"]), m) := by
  rw [accept, htokens]
  change (if removeClientHead = addClientHead then _ else
    if removeClientHead = removeClientHead then _ else _) = _
  rw [if_neg (by decide), if_pos rfl]
  dsimp only
  by_cases hmem : name ∈ m.names
  · rw [if_pos hmem, removeClient_of_mem hmem]
  · rw [if_neg hmem, removeClient_of_not_mem hmem]

theorem accept_change (hname : IsToken name) (hpwd : IsToken pwd) (hmem : name ∈ m.names) :
    m.accept node (unwords [changePwdHead, name, pwd]) =
      (some confirmHead, { m with clients := (changeLoop name pwd m.clients).2 }) := by
  have hfound : m.changePassword name pwd =
      (true, { m with clients := (changeLoop name pwd m.clients).2 }) := by
    have hloop : (changeLoop name pwd m.clients).1 = true := changeLoop_of_mem hmem
    rw [← hloop]
    rfl
  rw [accept, tokens_line (by decide) hname hpwd]
  change (if changePwdHead = addClientHead then _ else
    if changePwdHead = removeClientHead then _ else
      if changePwdHead = changePwdHead then _ else _) = _
  rw [if_neg (by decide), if_neg (by decide), if_pos rfl]
  dsimp only
  rw [hfound]

end MasterServer

end CodingSample.Dropbox
