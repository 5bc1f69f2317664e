import CodingSample.Vfs.Settling

/-!
# The books at the start, and what they say

The kernel before the first call, and the references that keep a file and a directory.
-/

namespace CodingSample.Vfs.Sys

variable {σ ι : Type} [Fintype ι] {L : Ledger σ} {root f v : Nat} {fs : σ} {k : Kernel ι σ} {p : ι}

/-- The kernel when the processes start: no file is open, and all are at the root. -/
def Kernel.started (fs : σ) (root : Nat) : Kernel ι σ where
  sys := ⟨fs, ∅, fun _ => ⟨0, 0, 0, none⟩⟩
  pFiles := fun _ _ => none
  pCwd := fun _ => root

/-- The root has a reference for each process and one for itself. -/
theorem Kernel.started_owes (hsound : L.sound fs)
    (hrefs : L.refs fs = Pi.single root (1 + Fintype.card ι : Int)) :
    (Kernel.started fs root : Kernel ι σ).Owes L root 0 0 := by
  refine ⟨hsound, ?_, ?_, ?_, ?_, fun v => ?_⟩
  · intro p fd f _ hslot
    cases hslot
  · intro f hf
    cases Finset.notMem_empty f hf
  · intro f hf
    cases Finset.notMem_empty f hf
  · intro f hf
    cases Finset.notMem_empty f hf
  · have hfiles : filesOn (Kernel.started fs root : Kernel ι σ).sys v = 0 := rfl
    have hdirs : dirsAt (Kernel.started fs root : Kernel ι σ).pCwd v =
        if v = root then Fintype.card ι else 0 := by
      by_cases hv : v = root
      · simp [dirsAt, tally, Kernel.started, hv]
      · simp [dirsAt, tally, Kernel.started, hv, Ne.symm hv]
    have hhere : L.refs (Kernel.started fs root : Kernel ι σ).sys.fs v =
        (Pi.single root (1 + Fintype.card ι : Int) : Nat → Int) v := congrFun hrefs v
    rw [hhere, hfiles, hdirs, Pi.single_apply, Pi.zero_apply]
    split <;> simp only [Nat.cast_zero] <;> omega

/-- An open file has a descriptor and a vnode with a reference. -/
theorem Kernel.Owes.onFile (h : k.Owes L root 0 0) (hf : f ∈ k.sys.opened) :
    (k.sys.files f).fRefcount = slotsOf k.pFiles f ∧ 0 < slotsOf k.pFiles f ∧
      ∃ v, (k.sys.files f).fVnode = some v ∧ 0 < L.refs k.sys.fs v := by
  have hcount := h.file f hf
  rw [Pi.zero_apply, add_zero] at hcount
  have hused := h.used f hf
  refine ⟨hcount, by omega, ?_⟩
  cases hvnode : (k.sys.files f).fVnode with
  | none => cases h.named f hf hvnode
  | some v =>
      have hon : 0 < filesOn k.sys v := tally_pos hf (decide_eq_true hvnode)
      have hrefs := h.vnode v
      rw [Pi.zero_apply] at hrefs
      refine ⟨v, rfl, ?_⟩
      split at hrefs <;> omega

theorem Kernel.Owes.onDirectory (h : k.Owes L root 0 0) (p : ι) :
    0 < L.refs k.sys.fs (k.pCwd p) := by
  have hat : 0 < dirsAt k.pCwd (k.pCwd p) :=
    tally_pos (Finset.mem_univ p) (decide_eq_true rfl)
  have hrefs := h.vnode (k.pCwd p)
  rw [Pi.zero_apply] at hrefs
  split at hrefs <;> omega

theorem Kernel.Owes.onVnode (h : k.Owes L root 0 0) (v : Nat) :
    L.refs k.sys.fs v = filesOn k.sys v + dirsAt k.pCwd v + if v = root then 1 else 0 := by
  have hrefs := h.vnode v
  rwa [Pi.zero_apply, add_zero] at hrefs

end CodingSample.Vfs.Sys
