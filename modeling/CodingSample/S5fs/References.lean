import CodingSample.S5fs.Counting

/-!
# The references that the operations of S5 take

Reading and writing, the entries of directories, and the operations of `s5fs.c` over them.
-/

namespace CodingSample.S5fs

open Prog Vfs

variable {α : Type} {ino dir n pos len fuel : Nat} {k : Int} {b : UInt32} {bytes dest : Block}
  {name : List UInt8} [BlockDev]

/-! ### Files -/

omit [BlockDev] in
theorem blind_copyOut {off : Int} : Blind (copyOut ino n off k pos len dest) :=
  .bind blind_getVnode fun _ => .bind .check fun _ => .pure

theorem refers_s5ReadMiddle {endBlock : Nat} :
    Refers (s5ReadMiddle ino n endBlock len fuel pos dest) fun _ => 0 := by
  induction fuel generalizing pos dest with
  | zero => exact .fail
  | succ fuel ih =>
      refine .bind_zero refers_pframeGet fun ret => .ite (fun _ => .pure rfl) fun _ =>
        .ite (fun _ => .pure rfl) fun _ => ?_
      exact .bind_zero blind_copyOut.refers fun dest => ih

theorem refers_s5ReadFile : Refers (s5ReadFile ino k dest len) fun _ => 0 := by
  refine .bind_zero blind_getVnode.refers fun v => .get_bind fun s => .bind_zero .check fun _ =>
    .ite (fun _ => .pure rfl) fun _ => ?_
  refine .bind_zero refers_pframeGet fun ret => .ite (fun _ => .pure rfl) fun _ => ?_
  refine .bind_zero refers_pframeGet fun ret => .ite (fun _ => .pure rfl) fun _ =>
    .ite (fun _ => ?_) fun _ => ?_
  · exact .bind_zero blind_copyOut.refers fun _ => .pure rfl
  · refine .bind_zero blind_copyOut.refers fun dest => .bind_zero refers_s5ReadMiddle fun r =>
      .ite (fun _ => .pure rfl) fun _ => ?_
    exact .bind_zero blind_copyOut.refers fun _ => .pure rfl

omit [BlockDev] in
theorem refers_copyToPage {off : Int} :
    Refers (copyToPage ino n off k bytes pos len) fun _ => 0 :=
  .bind_zero .check fun _ => refers_pokePage

theorem refers_s5WriteMiddle {endBlock : Nat} :
    Refers (s5WriteMiddle ino endBlock k bytes len fuel pos) fun _ => 0 := by
  induction fuel generalizing pos with
  | zero => exact .fail
  | succ fuel ih =>
      refine .bind_zero refers_pframeGet fun ret => .bind_zero .check fun _ =>
        .ite (fun _ => .pure rfl) fun _ => ?_
      exact .bind_zero refers_copyToPage fun _ => .bind_zero refers_pframeDirty fun _ => ih

theorem refers_s5WritePages {endPos : Int} :
    Refers (s5WritePages ino k endPos bytes len) fun _ => 0 := by
  refine .ite (fun _ => ?_) fun _ => ?_
  · refine .bind_zero refers_copyToPage fun _ => .bind_zero .check fun _ => ?_
    refine .bind_zero refers_pframeDirty fun _ => ?_
    exact .bind_zero blind_getVnode.refers fun _ => refers_setSize
  · refine .bind_zero refers_copyToPage fun _ => .bind_zero refers_pframeDirty fun _ => ?_
    refine .bind_zero blind_getVnode.refers fun v => .bind_zero refers_setSize fun _ => ?_
    refine .bind_zero refers_s5WriteMiddle fun _ => .bind_zero refers_copyToPage fun _ => ?_
    refine .bind_zero refers_pframeDirty fun _ => ?_
    exact .bind_zero blind_getVnode.refers fun _ => refers_setSize

theorem refers_s5WriteFile : Refers (s5WriteFile ino k bytes len) fun _ => 0 := by
  refine .bind_zero blind_getVnode.refers fun v => .get_bind fun s => .bind_zero .check fun _ => ?_
  refine .bind_zero refers_pframeGet fun ret => .ite (fun _ => .pure rfl) fun _ => ?_
  refine .bind_zero refers_pframeGet fun ret => .ite (fun _ => .pure rfl) fun _ => ?_
  refine .bind_zero refers_s5WritePages fun _ => .bind_zero blind_getVnode.refers fun w => ?_
  exact .get_bind fun t => .bind_zero .check fun _ => .pure rfl

/-! ### Directories -/

theorem refers_s5FindDirent : Refers (s5FindDirent dir name) fun _ => 0 := by
  have hround (fuel : Nat) : ∀ offset, Refers (s5FindFrom dir name fuel offset) fun _ => 0 := by
    induction fuel with
    | zero => exact fun _ => .fail
    | succ fuel ih =>
        intro offset
        refine .bind_zero refers_s5ReadFile fun r => .ite (fun _ => .pure rfl) fun _ =>
          .ite (fun _ => .pure rfl) fun _ => .ite (fun _ => .pure rfl) fun _ => ?_
        exact .ite (fun _ => .pure rfl) fun _ => ih _
  refine .bind_zero .check fun _ => .bind_zero blind_getVnode.refers fun v => .get_bind fun s => ?_
  exact .bind_zero .check fun _ => .ite (fun _ => .pure rfl) fun _ => hround _ _

theorem refers_s5Link {child : Nat} : Refers (s5Link dir child bytes len) fun _ => 0 := by
  refine .bind_zero blind_getVnode.refers fun p => .bind_zero .check fun _ => .get_bind fun s => ?_
  refine .bind_zero .check fun _ => .bind_zero blind_getVnode.refers fun c => ?_
  refine .bind_zero .check fun _ => .bind_zero refers_s5FindDirent fun exist =>
    .ite (fun _ => .pure rfl) fun _ => ?_
  refine .get_bind fun s => .bind_zero .check fun _ => .bind_zero .check fun _ => ?_
  refine .bind_zero blind_getVnode.refers fun p => .bind_zero .check fun _ => ?_
  refine .bind_zero refers_s5WriteFile fun written => .ite (fun _ => ?_) fun _ => .pure rfl
  refine .ite (fun _ => .pure rfl) fun _ => ?_
  exact .get_bind fun s => .bind_zero blind_setLinkcount.refers fun _ => .pure rfl

/-- The entry's inode is brought in to give up its link. -/
theorem refers_s5DropLink : Refers (s5DropLink ino) fun _ => 0 := by
  refine refers_vget.bind fun _ => .get_bind fun s => .bind_zero blind_setLinkcount.refers fun _ => ?_
  refine refers_vput.congr fun _ => ?_
  rw [zero_sub]

theorem refers_s5TakeOut : Refers (s5TakeOut dir k b) fun _ => 0 := by
  have hfill (vnLen : Int) : Refers (s5FillHole dir k vnLen) fun _ => 0 := by
    refine .ite (fun _ => ?_) fun _ => .pure rfl
    refine .bind_zero refers_s5ReadFile fun r => .ite (fun _ => .pure rfl) fun _ => ?_
    exact .ite (fun _ => .pure rfl) fun _ => refers_s5WriteFile
  refine .bind_zero blind_getVnode.refers fun v => .bind_zero (hfill _) fun ret =>
    .ite (fun _ => .pure rfl) fun _ => ?_
  refine .bind_zero blind_getVnode.refers fun v => .bind_zero refers_setSize fun _ => ?_
  exact .bind_zero refers_s5DropLink fun _ => .pure rfl

theorem refers_s5RemoveDirent : Refers (s5RemoveDirent dir name) fun _ => 0 := by
  have hround (fuel : Nat) : ∀ offset, Refers (s5RemoveFrom dir name fuel offset) fun _ => 0 := by
    induction fuel with
    | zero => exact fun _ => .fail
    | succ fuel ih =>
        intro offset
        refine .bind_zero refers_s5ReadFile fun r => .ite (fun _ => .pure rfl) fun _ =>
          .ite (fun _ => .pure rfl) fun _ => .ite (fun _ => .pure rfl) fun _ => ?_
        exact .ite (fun _ => refers_s5TakeOut) fun _ => ih _
  refine .bind_zero .check fun _ => .bind_zero blind_getVnode.refers fun v => .get_bind fun s => ?_
  exact .bind_zero .check fun _ => .bind_zero .check fun _ => hround _ _

/-! ### Operations -/

theorem refers_putReturn {ret : α} : Refers (putReturn ino ret) fun _ => -Pi.single ino 1 :=
  refers_vput.bind fun _ => .pure (sub_self _)

theorem refers_s5fsLookup : Refers (s5fsLookup dir name) Sys.gained := by
  refine .bind_zero .check fun _ => .bind_zero refers_s5FindDirent fun inodeNumber =>
    .ite (fun _ => .pure rfl) fun _ => ?_
  exact refers_vget.bind fun _ => .pure (sub_self _)

theorem refers_assertNew : Refers (assertNew dir name) fun _ => 0 := by
  refine .bind_zero .check fun _ => refers_s5fsLookup.bind fun r => ?_
  cases r with
  | ok vn => exact .fail
  | error e => exact .pure (sub_self _)

/-- The new vnode comes with a reference, which `body` gives up or hands on. -/
theorem refers_withNew {type : S5Type} {failed unlinked : Int → α} {body : Nat → K α}
    {d : α → Nat → Int} (hfailed : ∀ r, d (failed r) = 0) (hunlinked : ∀ r, d (unlinked r) = 0)
    (hbody : ∀ vn, Refers (body vn) fun a => d a - Pi.single vn 1) :
    Refers (withNew type b dir name failed unlinked body) d := by
  refine .bind_zero blind_s5AllocInode.refers fun ino => .ite (fun _ => .pure (hfailed ino))
    fun _ => refers_vget.bind fun _ => .bind_zero refers_s5Link fun ret => .ite (fun _ => ?_)
      fun _ => hbody ino.toNat
  refine refers_vput.bind fun _ => .pure ?_
  rw [hunlinked, zero_sub, sub_self]

theorem refers_s5fsCreate : Refers (s5fsCreate dir name) Sys.gained := by
  refine .bind_zero refers_assertNew fun _ => refers_withNew (fun _ => rfl) (fun _ => rfl)
    fun vn => .get_bind fun s => .bind_zero .check fun _ => ?_
  refine .bind_zero blind_getVnode.refers fun v => .bind_zero .check fun _ => .pure ?_
  exact sub_self _

theorem refers_s5fsMknod {mode : Nat} : Refers (s5fsMknod dir name mode b) fun _ => 0 := by
  refine .bind_zero .check fun _ => .bind_zero refers_assertNew fun _ =>
    refers_withNew (fun _ => rfl) (fun _ => rfl) fun vn => ?_
  refine .bind_zero blind_getVnode.refers fun v => .bind_zero .check fun _ => ?_
  refine refers_putReturn.congr fun _ => ?_
  rw [zero_sub]

theorem refers_s5fsLink {src : Nat} : Refers (s5fsLink src dir name) fun _ => 0 :=
  .bind_zero refers_assertNew fun _ => .get_bind fun _ => .bind_zero refers_s5Link fun _ =>
    .get_bind fun _ => .bind_zero .check fun _ => .pure rfl

theorem refers_s5fsUnlink : Refers (s5fsUnlink dir name) fun _ => 0 :=
  .bind_zero .check fun _ => refers_s5RemoveDirent

theorem refers_s5fsFillDir {parentLink : Int} :
    Refers (s5fsFillDir dir parentLink ino) fun _ => -Pi.single ino 1 := by
  refine .bind_zero refers_s5Link fun ret => .ite (fun _ => refers_putReturn) fun _ =>
    .get_bind fun a => .bind_zero refers_s5Link fun ret => .ite (fun _ => refers_putReturn)
      fun _ => .get_bind fun t => ?_
  refine .bind_zero .check fun _ => .bind_zero .check fun _ => .bind_zero .check fun _ => ?_
  refine refers_vput.bind fun _ => .bind_zero .check fun _ => .pure ?_
  exact sub_self _

theorem refers_s5fsMkdir : Refers (s5fsMkdir dir name) fun _ => 0 := by
  refine .bind_zero refers_assertNew fun _ => .get_bind fun s =>
    refers_withNew (fun _ => rfl) (fun _ => rfl) fun vn => ?_
  refine refers_s5fsFillDir.congr fun _ => ?_
  rw [zero_sub]

theorem refers_s5fsRmdir : Refers (s5fsRmdir dir name) fun _ => 0 := by
  refine .bind_zero .check fun _ => .bind_zero blind_getVnode.refers fun p => .get_bind fun s =>
    .bind_zero .check fun _ => .bind_zero refers_s5FindDirent fun inodeNumber =>
      .ite (fun _ => .pure rfl) fun _ => refers_vget.bind fun _ => ?_
  set vn := inodeNumber.toNat
  have hput (ret : Int) : Refers (putReturn vn ret) fun _ => 0 - Pi.single vn 1 := by
    refine refers_putReturn.congr fun _ => ?_
    rw [zero_sub]
  refine .bind_zero blind_getVnode.refers fun v => .get_bind fun s => .ite (fun _ => hput _)
    fun _ => .ite (fun _ => hput _) fun _ => ?_
  refine .bind_zero refers_s5RemoveDirent fun ret => .ite (fun _ => hput _) fun _ => ?_
  exact .get_bind fun s => .bind_zero blind_setLinkcount.refers fun _ => hput _

theorem refers_s5fsReaddir : Refers (s5fsReaddir dir k) fun _ => 0 :=
  .bind_zero blind_getVnode.refers fun _ => .bind_zero .check fun _ =>
    .bind_zero refers_s5ReadFile fun _ => .ite (fun _ => .pure rfl) fun _ =>
      .ite (fun _ => .pure rfl) fun _ => .pure rfl

theorem refers_s5fsStat : Refers (s5fsStat ino) fun _ => 0 := by
  have hblocks : Blind (s5InodeBlocks ino) :=
    .bind .get fun _ => .bind blind_pframeGetBdev fun _ => .bind .check fun _ => .bind .get fun _ =>
      .pure
  exact .bind_zero blind_getVnode.refers fun _ => .get_bind fun _ => .bind_zero hblocks.refers
    fun _ => .pure rfl

/-! ### The operations of the vnodes -/

section Ops

variable {δ : Type} {m : Devices δ}

/-- The references that `vn_refcount` counts besides those of resident pages. -/
def ledger : Sys.Ledger S5 := ⟨S5.Used, S5.refs⟩

omit [BlockDev] in
theorem takes_byMode {regular : Prog Fault (S5 × δ) α} {special : UInt32 → Prog Fault (S5 × δ) α}
    (hregular : ledger.Takes regular fun _ => 0)
    (hspecial : ∀ devid, ledger.Takes (special devid) fun _ => 0) :
    ledger.Takes (byMode ino regular special) fun _ => 0 := by
  refine .bind_zero (takes_onDisk blind_getVnode.refers) fun v => ?_
  split
  · exact hspecial _
  · exact .fail
  all_goals exact hregular

theorem takes_readByMode : ledger.Takes (byMode ino (onDisk (s5fsRead ino k n)) fun devid =>
    specialFileRead m devid k n) fun _ => 0 :=
  takes_byMode (takes_onDisk (.bind_zero refers_s5ReadFile fun _ => .pure rfl))
    fun _ => takes_specialFileRead

theorem takes_writeByMode {buf : List UInt8} :
    ledger.Takes (byMode ino (onDisk (s5fsWrite ino k buf)) fun devid =>
      specialFileWrite m devid k buf) fun _ => 0 :=
  takes_byMode (takes_onDisk refers_s5WriteFile) fun _ => takes_specialFileWrite

theorem fileOps_counts (m : Devices δ) : Sys.Counts (fileOps m) ledger.beside where
  vref _ := takes_onDisk refers_vref
  vput _ := takes_onDisk refers_vput
  lookup _ _ := takes_onDisk refers_s5fsLookup
  create _ _ := takes_onDisk refers_s5fsCreate
  read _ _ _ := takes_readByMode
  write _ _ _ := takes_writeByMode
  mknod _ _ _ _ := takes_onDisk refers_s5fsMknod
  mkdir _ _ := takes_onDisk refers_s5fsMkdir
  rmdir _ _ := takes_onDisk refers_s5fsRmdir
  unlink _ _ := takes_onDisk refers_s5fsUnlink
  link _ _ _ := takes_onDisk refers_s5fsLink
  readdir _ _ := takes_onDisk refers_s5fsReaddir
  stat _ := takes_onDisk refers_s5fsStat

end Ops

end CodingSample.S5fs
