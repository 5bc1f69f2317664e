import CodingSample.Dropbox.Accounts

/-!
# Commands of a file server

The table that the master should have for a file server while a command is under way, which the
steps that the master does not notice keep.
-/

namespace CodingSample.Dropbox

variable {name password oldPassword clientName reply : JString} {call : Call} {disk : Disk}
  {f f' : DropboxFileServer}

namespace DropboxFileServer

/-- The table that the master should have for the file server. -/
def registered (f : DropboxFileServer) : ClientTable :=
  match f.thread with
  | .idle => f.clients
  | .asking (.add name) _ => f.clients.erase name
  | .asking (.remove _) _ => f.clients
  | .asking (.change name oldPassword _) _ => f.clients.insert name oldPassword
  | .told (.add name) reply => if reply = confirmHead then f.clients else f.clients.erase name
  | .told (.remove name) reply => if reply = confirmHead then f.clients.erase name else f.clients
  | .told (.change name oldPassword _) reply =>
      if reply = confirmHead then f.clients else f.clients.insert name oldPassword
  | .retrying _ => f.clients

/-- The line that is on its way is that of the command. -/
def Sound (f : DropboxFileServer) : Prop :=
  match f.thread with
  | .idle => True
  | .asking (.add name) str => ∃ password, f.clients.lookup name = some password ∧
      str = unwords [addClientHead, name, password]
  | .asking (.remove name) str => IsToken name ∧ str = unwords [removeClientHead, name]
  | .asking (.change name oldPassword password) str => f.clients.lookup name = some password ∧
      (IsToken name ∧ IsToken oldPassword) ∧ str = unwords [changePwdHead, name, password]
  | .told (.change name oldPassword password) _ => f.clients.lookup name = some password ∧
      IsToken name ∧ IsToken oldPassword
  | .told _ _ => True
  | .retrying name => name ∉ f.clients

/-- The names and passwords are tokens. -/
def Spelled (f : DropboxFileServer) : Prop :=
  ∀ name password, f.clients.lookup name = some password → IsToken name ∧ IsToken password

/-- A command is given up when the connection ends. -/
def Away (f : DropboxFileServer) : Prop := f.node = none → f.thread = .idle

/-- A step that the master does not notice. -/
structure Private (f f' : DropboxFileServer) : Prop where
  node : f'.node = f.node
  sound : f'.Sound
  spelled : f.Spelled → f'.Spelled
  registered : ∀ name, f'.registered.lookup name = f.registered.lookup name

theorem lookup_insert (table : ClientTable) (name name' password : JString) :
    (table.insert name' password).lookup name =
      if name = name' then some password else table.lookup name := by
  split
  · rename_i heq
    rw [heq, AList.lookup_insert]
  · rename_i hne
    rw [AList.lookup_insert_ne hne]

theorem lookup_erase (table : ClientTable) (name name' : JString) :
    (table.erase name').lookup name = if name = name' then none else table.lookup name := by
  split
  · rename_i heq
    rw [heq, AList.lookup_erase]
  · rename_i hne
    rw [AList.lookup_erase_ne hne]

theorem Spelled.insert {thread : Thread} (h : f.Spelled) (hname : IsToken name)
    (hpassword : IsToken password) :
    Spelled { f with clients := f.clients.insert name password, thread := thread } := by
  intro name' password' hlookup
  rw [lookup_insert] at hlookup
  split at hlookup
  · rename_i heq
    obtain rfl := Option.some.inj hlookup
    rw [heq]
    exact ⟨hname, hpassword⟩
  · exact h name' password' hlookup

theorem Spelled.erase {thread : Thread} (h : f.Spelled) :
    Spelled { f with clients := f.clients.erase name, thread := thread } := by
  intro name' password' hlookup
  rw [lookup_erase] at hlookup
  split at hlookup
  · cases hlookup
  · exact h name' password' hlookup

theorem Private.refl (h : f.Sound) : f.Private f := ⟨rfl, h, fun hf => hf, fun _ => rfl⟩

theorem sound_of_idle (h : f.thread = .idle) : f.Sound := by
  rw [Sound, h]
  trivial

theorem registered_of_idle (h : f.thread = .idle) : f.registered = f.clients := by
  rw [registered, h]

/-- A client is added and the master is asked. -/
theorem private_add (h : f.thread = .idle) (hname : IsToken name) (hpassword : IsToken password) :
    f.Private (f.parseAdd disk name password) := by
  have hrefl := Private.refl (sound_of_idle h)
  unfold parseAdd addClient
  split
  · exact hrefl
  split
  · exact hrefl
  split
  · exact hrefl
  by_cases hmem : name ∈ f.clients
  · rw [if_pos hmem]
    exact hrefl
  rw [if_neg hmem]
  by_cases hexists : disk.dirExists
  · rw [if_pos hexists]
    exact hrefl
  rw [if_neg hexists]
  by_cases hmkdir : disk.mkdir
  · rw [if_pos hmkdir]
    have hlookup : (f.clients.insert name password).lookup name = some password :=
      AList.lookup_insert _
    change f.Private (sendAdd { f with clients := f.clients.insert name password } name)
    rw [sendAdd]
    dsimp only
    rw [hlookup]
    refine ⟨rfl, ⟨password, hlookup, rfl⟩, fun hf => hf.insert hname hpassword, fun name' => ?_⟩
    rw [registered_of_idle h]
    change ((f.clients.insert name password).erase name).lookup name' = _
    rw [lookup_erase, lookup_insert]
    split
    · rename_i heq
      rw [heq, AList.lookup_eq_none.mpr hmem]
    · rfl
  · rw [if_neg hmkdir]
    exact hrefl

/-- A password is changed and the master is asked. -/
theorem private_change (h : f.thread = .idle) (hname : IsToken name)
    (hold : IsToken oldPassword) (hpassword : IsToken password) :
    f.Private (f.parseChange name oldPassword password) := by
  have hrefl := Private.refl (sound_of_idle h)
  unfold parseChange changePassword
  split
  · exact hrefl
  by_cases hmatch : f.clients.lookup name = some oldPassword
  · rw [if_pos hmatch]
    have hlookup : (f.clients.insert name password).lookup name = some password :=
      AList.lookup_insert _
    refine ⟨rfl, ⟨hlookup, ⟨hname, hold⟩, rfl⟩, fun hf => hf.insert hname hpassword,
      fun name' => ?_⟩
    rw [registered_of_idle h]
    change ((f.clients.insert name password).insert name oldPassword).lookup name' = _
    rw [lookup_insert, lookup_insert]
    split
    · rename_i heq
      rw [heq, hmatch]
    · rfl
  · rw [if_neg hmatch]
    exact hrefl

theorem private_parse (h : f.thread = .idle) (str : JString) : f.Private (f.parse disk str) := by
  have hrefl := Private.refl (sound_of_idle h)
  have htoken : ∀ word ∈ tokens str, IsToken word := fun _ => isToken_of_mem
  unfold parse
  cases htokens : tokens str with
  | nil => exact hrefl
  | cons tmp rest =>
      rw [htokens] at htoken
      cases rest with
      | nil => exact hrefl
      | cons name rest =>
          have hname : IsToken name := htoken name (List.mem_cons_of_mem _ List.mem_cons_self)
          have hrest : ∀ word ∈ rest, IsToken word := fun word hword =>
            htoken word (List.mem_cons_of_mem _ (List.mem_cons_of_mem _ hword))
          change f.Private (if tmp = java "-r" then _ else _)
          split
          · cases rest with
            | nil =>
                refine ⟨rfl, ⟨hname, rfl⟩, fun hf => hf, fun name' => ?_⟩
                rw [registered_of_idle h]
                rfl
            | cons _ _ => exact hrefl
          split
          · cases rest with
            | nil => exact private_add h hname (by decide)
            | cons passWord rest =>
                cases rest with
                | nil => exact private_add h hname (hrest passWord List.mem_cons_self)
                | cons _ _ => exact hrefl
          split
          · cases rest with
            | nil => exact hrefl
            | cons oldPassword rest =>
                cases rest with
                | nil => exact hrefl
                | cons password rest =>
                    cases rest with
                    | nil =>
                        exact private_change h hname (hrest oldPassword List.mem_cons_self)
                          (hrest password (List.mem_cons_of_mem _ List.mem_cons_self))
                    | cons _ _ => exact hrefl
          · exact hrefl

/-- The client is taken out of the table if it is there. -/
theorem lookup_removeClient (name' : JString) :
    (f.removeClient disk name).2.clients.lookup name' = (f.clients.erase name).lookup name' := by
  rw [removeClient]
  split
  · rfl
  · rename_i hmem
    rw [lookup_erase]
    split
    · rename_i heq
      rw [heq, AList.lookup_eq_none.mpr hmem]
    · rfl

theorem removeClient_node : (f.removeClient disk name).2.node = f.node := by
  rw [removeClient]
  split <;> rfl

theorem Spelled.of_lookup (h : f.Spelled)
    (hlookup : ∀ name, f'.clients.lookup name = (f.clients.erase clientName).lookup name) :
    f'.Spelled := by
  intro name password hname
  rw [hlookup, lookup_erase] at hname
  split at hname
  · cases hname
  · exact h name password hname

/-- A round of the loop of `-r`. -/
theorem private_remove {g : DropboxFileServer} (hnode : g.node = f.node)
    (hclients : g.clients = f.clients)
    (hregistered : ∀ name', (f.clients.erase name).lookup name' = f.registered.lookup name') :
    f.Private (g.resume disk confirmHead (.remove name)) := by
  have hlookup : ∀ name', (g.removeClient disk name).2.clients.lookup name' =
      (f.clients.erase name).lookup name' := by
    rw [← hclients]
    exact lookup_removeClient
  have hremoved : name ∉ (g.removeClient disk name).2.clients := by
    rw [← AList.lookup_eq_none, hlookup]
    exact AList.lookup_erase _ _
  have hnode' : (g.removeClient disk name).2.node = f.node := removeClient_node.trans hnode
  rw [resume, if_pos rfl]
  rcases hresult : g.removeClient disk name with ⟨result, g'⟩
  rw [hresult] at hlookup hremoved hnode'
  cases result with
  | true =>
      exact ⟨hnode', trivial, fun hf => hf.of_lookup hlookup,
        fun name' => (hlookup name').trans (hregistered name')⟩
  | false =>
      exact ⟨hnode', hremoved, fun hf => hf.of_lookup hlookup,
        fun name' => (hlookup name').trans (hregistered name')⟩

theorem private_retry (h : f.thread = .retrying name) (hf : f.Sound) :
    f.Private (f.resume disk confirmHead (.remove name)) := by
  rw [Sound, h] at hf
  have hregistered : f.registered = f.clients := by
    rw [registered, h]
  refine private_remove rfl rfl fun name' => ?_
  rw [hregistered, lookup_erase]
  split
  · rename_i heq
    rw [heq, AList.lookup_eq_none.mpr hf]
  · rfl

theorem private_answer (h : f.thread = .told call reply) (hf : f.Sound) :
    f.Private (f.resume disk reply call) := by
  have hregistered : f.registered = registered { f with thread := .told call reply } := by
    rw [← h]
  cases call with
  | add name =>
      rw [resume]
      split
      · rename_i hreply
        refine ⟨rfl, trivial, fun hf => hf, fun name' => ?_⟩
        rw [hregistered, registered, registered, hreply]
        rfl
      · rename_i hreply
        refine ⟨removeClient_node, trivial, fun hf => hf.of_lookup lookup_removeClient,
          fun name' => ?_⟩
        rw [hregistered]
        change (f.removeClient disk name).2.clients.lookup name' =
          (if reply = confirmHead then f.clients else f.clients.erase name).lookup name'
        rw [if_neg hreply]
        exact lookup_removeClient name'
  | remove name =>
      by_cases hreply : reply = confirmHead
      · rw [hreply]
        refine private_remove rfl rfl fun name' => ?_
        rw [hregistered, registered, hreply]
        rfl
      · rw [resume, if_neg hreply]
        refine ⟨rfl, trivial, fun hf => hf, fun name' => ?_⟩
        rw [hregistered]
        change f.clients.lookup name' =
          (if reply = confirmHead then f.clients.erase name else f.clients).lookup name'
        rw [if_neg hreply]
  | change name oldPassword password =>
      rw [Sound, h] at hf
      rw [resume]
      split
      · rename_i hreply
        refine ⟨rfl, trivial, fun hf => hf, fun name' => ?_⟩
        rw [hregistered, registered, registered, hreply]
        rfl
      · rename_i hreply
        have hback : f.changePassword name password oldPassword =
            (true, { f with clients := f.clients.insert name oldPassword }) := if_pos hf.1
        rw [hback]
        refine ⟨rfl, trivial, fun hspelled => hspelled.insert hf.2.1 hf.2.2, fun name' => ?_⟩
        rw [hregistered]
        change (f.clients.insert name oldPassword).lookup name' = AList.lookup name'
          (if reply = confirmHead then f.clients else f.clients.insert name oldPassword)
        rw [if_neg hreply]

end DropboxFileServer

end CodingSample.Dropbox
