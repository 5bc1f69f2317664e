import CodingSample.Prog.Keeps
import CodingSample.S5fs.Operations

/-!
# The references to the vnodes of S5

What each function of S5 takes and gives up. A resident page has a reference to its vnode, which is
not counted here.
-/

namespace CodingSample.S5fs

open Prog Vfs

/-- The references to a vnode that are not from its resident pages, or 0 if it is not in core. -/
def S5.refs (s : S5) (ino : Nat) : Int :=
  ((s.vnodes ino).map fun v => v.vnRefcount - v.vnNrespages).getD 0

/-- No vnode is in core without a reference. -/
def S5.Used (s : S5) : Prop := ∀ ino v, s.vnodes ino = some v → 0 < v.vnRefcount

/-- The program changes the references by what `d` says. -/
abbrev Refers {α : Type} (p : K α) (d : α → Nat → Int) : Prop := Changes S5.Used S5.refs p d

/-- The program does not touch the vnodes. -/
def Blind {α : Type} (p : K α) : Prop := ∀ vs, Keeps (fun s : S5 => s.vnodes = vs) p

variable {α β : Type} {s : S5} {ino n : Nat} {v w : Vnode} {k : Int}

theorem refs_of_some (hv : s.vnodes ino = some v) : s.refs ino = v.vnRefcount - v.vnNrespages := by
  rw [S5.refs, hv]
  rfl

theorem refs_of_none (hv : s.vnodes ino = none) : s.refs ino = 0 := by
  rw [S5.refs, hv]
  rfl

theorem refs_congr {s' : S5} (h : s'.vnodes = s.vnodes) : s'.refs = s.refs := by
  funext ino
  rw [S5.refs, S5.refs, h]

theorem used_congr {s' : S5} (h : s'.vnodes = s.vnodes) (hs : s.Used) : s'.Used := fun ino v hv =>
  hs ino v (h ▸ hv)

theorem refs_setVnode {x : Option Vnode} (hs : s.Used) (hx : ∀ w, x = some w → 0 < w.vnRefcount)
    (h : (x.map fun v => v.vnRefcount - v.vnNrespages).getD 0 = s.refs ino + k) :
    (s.setVnode ino x).Used ∧ (s.setVnode ino x).refs = s.refs + Pi.single ino k := by
  constructor
  · intro j w hw
    by_cases hj : j = ino
    · subst hj
      rw [S5.vnodes_setVnode_self] at hw
      exact hx w hw
    · rw [S5.vnodes_setVnode_of_ne hj] at hw
      exact hs j w hw
  · funext j
    rw [Pi.add_apply]
    by_cases hj : j = ino
    · subst hj
      rw [Pi.single_eq_same, ← h, S5.refs, S5.vnodes_setVnode_self]
    · rw [Pi.single_eq_of_ne hj, add_zero, S5.refs, S5.vnodes_setVnode_of_ne hj, S5.refs]

/-! ### Functions that do not touch the vnodes -/

namespace Blind

theorem bind {p : K α} {f : α → K β} (hp : Blind p) (hf : ∀ a, Blind (f a)) : Blind (p >>= f) :=
  fun vs => (hp vs).bind fun a => hf a vs

theorem get : Blind (Prog.get : K S5) := fun _ => Keeps.get

theorem pure {a : α} : Blind (Pure.pure a : K α) := fun _ => Keeps.pure a

theorem fail {e : Fault} : Blind (Prog.fail e : K α) := fun _ => Keeps.fail e

theorem check {e : Fault} {test : Bool} : Blind (Prog.check e test : K Unit) := fun _ =>
  Keeps.check e test

theorem modify {f : S5 → S5} (h : ∀ s, (f s).vnodes = s.vnodes) :
    Blind (Prog.modify f : K Unit) := fun _ => Keeps.modify fun s hs => (h s).trans hs

theorem ite {c : Prop} [Decidable c] {p p' : K α} (h : c → Blind p) (h' : ¬ c → Blind p') :
    Blind (if c then p else p') := fun vs => .ite (fun hc => h hc vs) fun hc => h' hc vs

theorem each {f : Nat → K Unit} (h : ∀ x, Blind (f x)) (xs : List Nat) : Blind (Prog.each f xs) :=
  fun vs => .each (fun x => h x vs) xs

theorem refers {p : K α} (h : Blind p) : Refers p fun _ => 0 := by
  intro s hs
  refine wlp_mono (h s.vnodes s rfl) ?_
  intro _ t ht
  exact ⟨used_congr ht hs, (refs_congr ht).trans (add_zero _).symm⟩

end Blind

theorem blind_setLinkcount : Blind (setLinkcount ino k) := .modify fun _ => rfl

variable [BlockDev] {b : UInt32}

theorem blind_pframeGetBdev : Blind (pframeGetBdev b) := by
  refine .bind .get fun s => ?_
  split
  · exact .pure
  · exact .ite (fun _ => .bind (.modify fun _ => rfl) fun _ => .pure) fun _ => .pure

omit [BlockDev] in
theorem blind_pokeBdev {f : Block → Block} : Blind (pokeBdev b f) := by
  refine .bind .get fun s => ?_
  split
  · exact .modify fun _ => rfl
  · exact .fail

omit [BlockDev] in
theorem blind_pframeDirtyBdev : Blind (pframeDirtyBdev b) := by
  refine .bind .get fun s => ?_
  split
  · exact .modify fun _ => rfl
  · exact .fail

theorem blind_pframeCleanBdev : Blind (pframeCleanBdev b) := by
  refine .bind .get fun s => ?_
  split
  · exact .bind .check fun _ => .ite (fun _ => .modify fun _ => rfl) fun _ => .pure
  · exact .fail

omit [BlockDev] in
theorem blind_pframeFreeBdev : Blind (pframeFreeBdev b) := by
  refine .bind .get fun s => ?_
  split
  · exact .modify fun _ => rfl
  · exact .fail

theorem blind_s5AllocBlock : Blind s5AllocBlock := by
  refine .bind .get fun s => .ite (fun _ => ?_) fun _ => ?_
  · refine .bind blind_pframeGetBdev fun ret => .ite (fun _ => .pure) fun _ => ?_
    refine .bind (.modify fun _ => rfl) fun _ => .bind blind_pokeBdev fun _ => ?_
    refine .bind blind_pframeDirtyBdev fun _ => .bind blind_pframeCleanBdev fun _ => ?_
    exact .bind blind_pframeFreeBdev fun _ => .bind (.modify fun _ => rfl) fun _ => .pure
  · exact .bind (.modify fun _ => rfl) fun _ => .pure

theorem blind_s5FreeBlock : Blind (s5FreeBlock b) := by
  refine .bind .get fun s => .bind .check fun _ => .ite (fun _ => ?_) fun _ => ?_
  · refine .bind blind_pframeGetBdev fun ret => .bind .check fun _ => ?_
    exact .bind blind_pokeBdev fun _ => .bind blind_pframeDirtyBdev fun _ => .modify fun _ => rfl
  · exact .modify fun _ => rfl

theorem blind_s5SeekDirect {alloc : Bool} : Blind (s5SeekDirect ino n alloc) := by
  refine .bind .get fun s => .ite (fun _ => .ite (fun _ => ?_) fun _ => .pure) fun _ => .pure
  refine .bind blind_s5AllocBlock fun blockNum => .ite (fun _ => .pure) fun _ => ?_
  exact .bind (.modify fun _ => rfl) fun _ => .pure

theorem blind_s5GetIndirect : Blind (s5GetIndirect ino) := by
  refine .bind .get fun s => .ite (fun _ => ?_) fun _ => blind_pframeGetBdev
  refine .bind blind_s5AllocBlock fun blockNum => .ite (fun _ => .pure) fun _ => ?_
  refine .bind blind_pframeGetBdev fun ret => .ite (fun _ => .pure) fun _ => ?_
  refine .bind blind_pokeBdev fun _ => .bind blind_pframeDirtyBdev fun _ => ?_
  exact .bind (.modify fun _ => rfl) fun _ => .pure

theorem blind_s5SeekIndirect {alloc : Bool} : Blind (s5SeekIndirect ino n alloc) := by
  refine .bind .get fun s => .ite (fun _ => .ite (fun _ => ?_) fun _ => .pure) fun _ => .pure
  refine .bind blind_s5AllocBlock fun blockNum => .ite (fun _ => .pure) fun _ => ?_
  exact .bind blind_pokeBdev fun _ => .bind blind_pframeDirtyBdev fun _ => .pure

theorem blind_s5SeekToBlock {alloc : Bool} : Blind (s5SeekToBlock ino k alloc) := by
  refine .bind .check fun _ => .ite (fun _ => .pure) fun _ => .ite (fun _ => ?_) fun _ => ?_
  · exact blind_s5SeekDirect
  · refine .bind blind_s5GetIndirect fun ret => .ite (fun _ => .pure) fun _ => ?_
    exact blind_s5SeekIndirect

omit [BlockDev] in
theorem blind_s5AllocInode {type : S5Type} : Blind (s5AllocInode type b) := by
  refine .bind .check fun _ => .bind .get fun s => .ite (fun _ => .pure) fun _ => ?_
  exact .bind .check fun _ => .bind (.modify fun _ => rfl) fun _ => .bind (.modify fun _ => rfl)
    fun _ => .pure

theorem blind_s5FreeInode : Blind (s5FreeInode ino) := by
  have hdirect (x : Nat) : Blind (s5FreeDirect ino x) := by
    refine .bind .get fun s => .ite (fun _ => ?_) fun _ => .pure
    exact .bind blind_s5FreeBlock fun _ => .modify fun _ => rfl
  have hentry (x : Nat) : Blind (s5FreeIndirectEntry ino x) :=
    .bind .get fun s => .bind .check fun _ => .ite (fun _ => blind_s5FreeBlock) fun _ => .pure
  have hindirect : Blind (s5FreeIndirect ino) := by
    refine .bind .get fun s => .ite (fun _ => ?_) fun _ => .pure
    refine .bind blind_pframeGetBdev fun ret => .bind .check fun _ => ?_
    exact .bind (.each hentry _) fun _ => blind_s5FreeBlock
  refine .bind .get fun s => .bind .check fun _ => .bind (.each hdirect _) fun _ => ?_
  refine .bind hindirect fun _ => .bind (.modify fun _ => rfl) fun _ => ?_
  exact .bind (.modify fun _ => rfl) fun _ => .modify fun _ => rfl

theorem blind_s5fsDeleteVnode : Blind (s5fsDeleteVnode ino) := by
  refine .bind .get fun s => .bind blind_setLinkcount fun _ => .bind .get fun t => ?_
  exact .bind .check fun _ => .ite (fun _ => blind_s5FreeInode) fun _ => .pure

/-! ### Vnodes and their pages -/

section Vnodes

omit [BlockDev]

theorem blind_getVnode : Blind (getVnode ino) := by
  refine .bind .get fun s => ?_
  split
  · exact .pure
  · exact .fail

/-- A vnode that stays in core, with `k` more references that are not from pages. -/
theorem refs_setVnode_some (hs : s.Used) (hv : s.vnodes ino = some v) (hpos : 0 < w.vnRefcount)
    (h : w.vnRefcount - w.vnNrespages = v.vnRefcount - v.vnNrespages + k) :
    (s.setVnode ino (some w)).Used ∧ (s.setVnode ino (some w)).refs = s.refs + Pi.single ino k := by
  refine refs_setVnode hs ?_ ?_
  · rintro _ ⟨rfl⟩
    exact hpos
  · rw [refs_of_some hv, ← h]
    rfl

theorem refers_modifyVnode {f : Vnode → Vnode} (h : ∀ v : Vnode, 0 < v.vnRefcount →
    0 < (f v).vnRefcount ∧
      (f v).vnRefcount - (f v).vnNrespages = v.vnRefcount - v.vnNrespages + k) :
    Refers (modifyVnode ino f) fun _ => Pi.single ino k := by
  intro s hs
  refine wlp_modifyVnode ?_
  intro v hv
  obtain ⟨hpos, hrefs⟩ := h v (hs ino v hv)
  exact refs_setVnode_some hs hv hpos hrefs

/-- A change of the contents, the length or the flags of a vnode. -/
theorem refers_modifyVnode_zero {f : Vnode → Vnode}
    (h : ∀ v : Vnode, (f v).vnRefcount = v.vnRefcount ∧ (f v).vnRespages = v.vnRespages) :
    Refers (modifyVnode ino f) fun _ => 0 := by
  have hzero : Refers (modifyVnode ino f) fun _ => Pi.single ino 0 := by
    refine refers_modifyVnode ?_
    intro v hpos
    obtain ⟨hcount, hpages⟩ := h v
    rw [Vnode.vnNrespages, Vnode.vnNrespages, hcount, hpages, add_zero]
    exact ⟨hpos, rfl⟩
  exact hzero.congr fun _ => Pi.single_zero ino

theorem refers_pokePage {f : Block → Block} : Refers (pokePage ino n f) fun _ => 0 :=
  .bind_zero blind_getVnode.refers fun _ => .bind_zero .check fun _ =>
    refers_modifyVnode_zero fun _ => ⟨rfl, rfl⟩

theorem refers_setDirty {dirty : Bool} : Refers (setDirty ino n dirty) fun _ => 0 :=
  refers_modifyVnode_zero fun _ => ⟨rfl, rfl⟩

theorem refers_setSize : Refers (setSize ino n) fun _ => 0 := by
  have hinode : Blind (modify fun s : S5 => s.setInode ino { s.inodes ino with s5Un := n }) :=
    .modify fun _ => rfl
  exact .bind_zero hinode.refers fun _ => refers_modifyVnode_zero fun _ => ⟨rfl, rfl⟩

theorem refers_vref : Refers (vref ino) fun _ => Pi.single ino 1 := by
  refine .bind_zero blind_getVnode.refers fun v => .bind_zero .check fun _ => ?_
  refine refers_modifyVnode ?_
  intro v hpos
  simp only [Vnode.vnNrespages]
  exact ⟨by omega, by omega⟩

theorem refers_vget : Refers (vget ino) fun _ => Pi.single ino 1 := by
  intro s hs
  rw [vget, wlp_bind, wlp_get]
  split
  · exact refers_vref s hs
  · rename_i hnone
    have hread : wlp (s5fsReadVnode ino) (fun v t => t.vnodes = s.vnodes ∧ v.vnRespages = []) s := by
      rw [s5fsReadVnode, wlp_bind, wlp_get, wlp_bind, wlp_check]
      intro _
      rw [wlp_bind, setLinkcount, wlp_modify]
      split
      · exact wlp_fail.mpr trivial
      · exact wlp_pure.mpr ⟨rfl, rfl⟩
    refine wlp_bind_of hread ?_
    rintro v t ⟨ht, hpages⟩
    rw [← refs_congr ht]
    refine wlp_modify.mpr (refs_setVnode (used_congr ht hs) ?_ ?_)
    · rintro _ ⟨rfl⟩
      exact one_pos
    · rw [refs_of_none (ht ▸ hnone), Option.map_some, Option.getD_some, Vnode.vnNrespages, hpages]
      rfl

theorem refers_pframeUnlink : Refers (pframeUnlink ino n) fun _ => Pi.single ino 1 := by
  intro s hs
  rw [pframeUnlink, wlp_bind]
  refine wlp_getVnode ?_
  intro v hv
  rw [wlp_bind, wlp_check]
  intro hn
  have hlen := List.length_erase_of_mem (of_decide_eq_true hn)
  have hpos := List.length_pos_of_mem (of_decide_eq_true hn)
  refine wlp_modifyVnode ?_
  intro w hw
  rw [hv] at hw
  cases hw
  refine refs_setVnode_some hs hv (hs ino v hv) ?_
  simp only [Vnode.vnNrespages, hlen]
  omega

end Vnodes

/-! ### `vput` -/

omit [BlockDev] in
theorem refers_vputEvict {free : Nat → K Unit} (h : ∀ n, Refers (free n) fun _ => 0) :
    Refers (vputEvict free ino) fun _ => 0 := by
  refine .bind_zero blind_getVnode.refers fun v => .bind_zero .check fun _ => ?_
  have hquery : Blind (s5fsQueryVnode ino) := .bind .get fun _ => .pure
  refine .bind_zero hquery.refers fun linked => .ite (fun _ => ?_) fun _ => .pure rfl
  refine .bind_zero (.each h _) fun _ => .bind_zero blind_getVnode.refers fun w => ?_
  exact .bind_zero .check fun _ => .check

/-- The last reference takes the vnode out of core. -/
theorem refers_vputDrop : Refers (vputDrop ino) fun _ => -Pi.single ino 1 := by
  intro s hs
  rw [← Pi.single_neg, vputDrop, wlp_bind]
  refine wlp_modifyVnode ?_
  intro v hv
  rw [wlp_bind]
  refine wlp_getVnode ?_
  intro w hw
  rw [S5.vnodes_setVnode_self] at hw
  cases hw
  split
  · rename_i hmore
    refine wlp_pure.mpr (refs_setVnode_some hs hv hmore ?_)
    simp only [Vnode.vnNrespages]
    omega
  · rw [wlp_bind, kassert, wlp_check]
    intro hzero
    rw [wlp_bind, kassert, wlp_check]
    intro hpages
    refine wlp_bind_of (blind_s5fsDeleteVnode _ _ rfl) ?_
    intro _ t ht
    have hsame : (t.setVnode ino none).vnodes = (s.setVnode ino none).vnodes := by
      rw [S5.setVnode, ht, S5.setVnode, Function.update_idem]
      rfl
    have hgone : (s.setVnode ino none).Used ∧
        (s.setVnode ino none).refs = s.refs + Pi.single ino (-1) := by
      refine refs_setVnode hs (fun w hw => by cases hw) ?_
      have hzero := of_decide_eq_true hzero
      have hpages := of_decide_eq_true hpages
      simp only [Vnode.vnNrespages] at hzero hpages
      rw [refs_of_some hv, Vnode.vnNrespages, Option.map_none, Option.getD_none]
      omega
    exact wlp_modify.mpr ⟨used_congr hsame hgone.1, (refs_congr hsame).trans hgone.2⟩

theorem refers_vputWithin (fuel : Nat) :
    Refers (vputWithin fuel ino) fun _ => -Pi.single ino 1 := by
  induction fuel with
  | zero => exact .fail
  | succ fuel ih =>
      refine .bind_zero (refers_vputEvict fun n => ?_) fun _ => refers_vputDrop
      -- the page gives its reference up
      refine refers_pframeUnlink.bind fun _ => ih.congr fun _ => ?_
      rw [zero_sub]

theorem refers_vput : Refers (vput ino) fun _ => -Pi.single ino 1 :=
  .bind_zero blind_getVnode.refers fun _ => refers_vputWithin _

/-! ### Pages of vnodes -/

theorem refers_s5fsFillpage {pagebuf : Nat} : Refers (s5fsFillpage ino k pagebuf) fun _ => 0 := by
  refine .bind_zero blind_s5SeekToBlock.refers fun diskNumber => .ite (fun _ => .pure rfl) fun _ =>
    .ite (fun _ => ?_) fun _ => ?_
  · exact .bind_zero refers_pokePage fun _ => .pure rfl
  · refine .get_bind fun s => .ite (fun _ => ?_) fun _ => .pure rfl
    exact .bind_zero refers_pokePage fun _ => .pure rfl

theorem blind_s5fsDirtypage : Blind (s5fsDirtypage ino k) := by
  refine .bind blind_s5SeekToBlock fun sparse => .ite (fun _ => .pure) fun _ =>
    .ite (fun _ => .pure) fun _ => ?_
  exact .bind blind_s5SeekToBlock fun _ => .pure

theorem blind_s5fsCleanpage {pagebuf : Nat} : Blind (s5fsCleanpage ino k pagebuf) := by
  refine .bind blind_s5SeekToBlock fun diskNumber => .ite (fun _ => .pure) fun _ => ?_
  refine .bind blind_getVnode fun v => .ite (fun _ => ?_) fun _ => .pure
  exact .bind (.modify fun _ => rfl) fun _ => .pure

theorem refers_vreadpage : Refers (vreadpage ino n) fun _ => 0 := by
  refine .bind_zero blind_getVnode.refers fun v => ?_
  split
  · exact refers_s5fsFillpage
  · exact refers_s5fsFillpage
  · exact .fail
  · exact .fail

theorem blind_vdirtypage : Blind (vdirtypage ino n) := by
  refine .bind blind_getVnode fun v => .ite (fun _ => .pure) fun _ => ?_
  split
  · exact blind_s5fsDirtypage
  · exact blind_s5fsDirtypage
  · exact .fail
  · exact .fail

theorem blind_vcleanpage : Blind (vcleanpage ino n) := by
  refine .bind blind_getVnode fun v => ?_
  split
  · exact blind_s5fsCleanpage
  · exact blind_s5fsCleanpage
  · exact .fail
  · exact .fail

omit [BlockDev] in
theorem refers_pframeAlloc : Refers (pframeAlloc ino n) fun _ => 0 := by
  refine refers_vref.bind fun _ => ?_
  have hpage : Refers (modifyVnode ino fun v =>
      { v.setFrame n { v.vnFrame n with dirty := false } with vnRespages := n :: v.vnRespages })
      fun _ => Pi.single ino (-1) := by
    refine refers_modifyVnode ?_
    intro v hpos
    simp only [Vnode.vnNrespages, Vnode.setFrame, List.length_cons, Nat.cast_succ]
    exact ⟨hpos, by omega⟩
  refine hpage.congr fun _ => ?_
  rw [Pi.single_neg, zero_sub]

theorem refers_pframeFree : Refers (pframeFree ino n) fun _ => 0 := by
  refine refers_pframeUnlink.bind fun _ => refers_vput.congr fun _ => ?_
  rw [zero_sub]

theorem refers_pframeGet : Refers (pframeGet ino n) fun _ => 0 := by
  refine .bind_zero blind_getVnode.refers fun v => .ite (fun _ => .pure rfl) fun _ => ?_
  refine .bind_zero refers_pframeAlloc fun _ => .bind_zero refers_vreadpage fun ret => ?_
  exact .ite (fun _ => .bind_zero refers_pframeFree fun _ => .pure rfl) fun _ => .pure rfl

theorem refers_pframeDirty : Refers (pframeDirty ino n) fun _ => 0 := by
  refine .bind_zero blind_getVnode.refers fun v => .bind_zero .check fun _ => ?_
  refine .bind_zero blind_vdirtypage.refers fun ret => .ite (fun _ => ?_) fun _ => .pure rfl
  exact .bind_zero refers_setDirty fun _ => .pure rfl

theorem refers_pframeClean : Refers (pframeClean ino n) fun _ => 0 := by
  refine .bind_zero blind_getVnode.refers fun v => .bind_zero .check fun _ => ?_
  refine .bind_zero .check fun _ => .bind_zero refers_setDirty fun _ => ?_
  refine .bind_zero blind_vcleanpage.refers fun ret => .ite (fun _ => ?_) fun _ => .pure rfl
  exact .bind_zero refers_setDirty fun _ => .pure rfl

end CodingSample.S5fs
