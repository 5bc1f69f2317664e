import CodingSample.Util.Init

/-!
# The section of the initialization functions

What the macros assemble is read back, and nothing else is read without a fault.
-/

namespace CodingSample.Util

variable {memory rest : List UInt8} {stop fuel buf n : Nat}

/-- `.long n`. -/
def long (n : Nat) : List UInt8 :=
  [UInt8.ofNat n, UInt8.ofNat (n / 256), UInt8.ofNat (n / 65536), UInt8.ofNat (n / 16777216)]

/-- One record: `.long pointer` and `.string name`. -/
def record (pointer : Nat) (name : List UInt8) : List UInt8 := long pointer ++ (name ++ [0])

/-- `init_func`, and `init_depends` for each of its dependencies. -/
def InitFunction.section (f : InitFunction) : List UInt8 :=
  record f.ifFunc f.ifName ++ f.ifDeps.flatMap (record 0)

def sectionOf (funcs : List InitFunction) : List UInt8 := funcs.flatMap InitFunction.section

/-- The function has an address, and the names are strings. -/
structure InitFunction.Proper (f : InitFunction) : Prop where
  pos : 0 < f.ifFunc
  lt : f.ifFunc < 4294967296
  name : 0 ∉ f.ifName
  deps : ∀ name ∈ f.ifDeps, 0 ∉ name

theorem bind_eq_ok {ε α β : Type} {x : Except ε α} {f : α → Except ε β} {b : β} :
    (x >>= f) = .ok b ↔ ∃ a, x = .ok a ∧ f a = .ok b := by
  cases x with
  | error e => simp [bind, Except.bind]
  | ok a => simp [bind, Except.bind]

/-! ### Words and strings -/

theorem word_long_append (h : n < 4294967296) : word (long n ++ rest) = .ok n := by
  simp only [long, List.cons_append, List.nil_append, word, UInt8.toNat_ofNat']
  congr 1
  omega

theorem word_eq_ok (h : word memory = .ok n) :
    n < 4294967296 ∧ memory = long n ++ memory.drop 4 := by
  match memory, h with
  | b₀ :: b₁ :: b₂ :: b₃ :: memory, h =>
      simp only [word, Except.ok.injEq] at h
      subst h
      have h₀ := b₀.toNat_lt
      have h₁ := b₁.toNat_lt
      have h₂ := b₂.toNat_lt
      have h₃ := b₃.toNat_lt
      refine ⟨by omega, ?_⟩
      simp only [long, List.cons_append, List.nil_append, List.drop_succ_cons, List.drop_zero,
        List.cons.injEq, and_true, ← UInt8.toNat_inj, UInt8.toNat_ofNat']
      omega

theorem cString_append {name : List UInt8} (h : 0 ∉ name) :
    cString (name ++ 0 :: rest) = .ok name := by
  induction name with
  | nil => rfl
  | cons b name ih =>
      obtain ⟨hb, hname⟩ := not_or.mp (List.mem_cons.not.mp h)
      rw [List.cons_append, cString, if_neg (Ne.symm hb), ih hname]
      rfl

theorem cString_eq_ok {name : List UInt8} (h : cString memory = .ok name) :
    0 ∉ name ∧ memory = name ++ 0 :: memory.drop (name.length + 1) := by
  induction memory generalizing name with
  | nil => cases h
  | cons b memory ih =>
      rw [cString] at h
      split at h
      · rename_i hb
        cases h
        exact ⟨List.not_mem_nil, by rw [hb]; rfl⟩
      · rename_i hb
        cases hrest : cString memory with
        | error e =>
            rw [hrest] at h
            cases h
        | ok tail =>
            rw [hrest] at h
            cases h
            obtain ⟨hnot, heq⟩ := ih hrest
            refine ⟨fun hmem => ?_, ?_⟩
            · rcases List.mem_cons.mp hmem with hmem | hmem
              · exact hb hmem.symm
              · exact hnot hmem
            · rw [List.length_cons, List.drop_succ_cons, List.cons_append, ← heq]

/-- A record in the memory at `buf`. -/
theorem record_of_ok {name : List UInt8} (hword : word (memory.drop buf) = .ok n)
    (hname : cString (memory.drop (buf + 4)) = .ok name) :
    n < 4294967296 ∧ 0 ∉ name ∧ buf + 4 + name.length + 1 ≤ memory.length ∧
      memory.drop buf = record n name ++ memory.drop (buf + 4 + name.length + 1) := by
  obtain ⟨hn, hmemory⟩ := word_eq_ok hword
  obtain ⟨hnot, hrest⟩ := cString_eq_ok hname
  rw [List.drop_drop] at hmemory hrest
  have hlen := congrArg List.length hrest
  rw [List.length_append, List.length_cons, List.length_drop, List.length_drop] at hlen
  refine ⟨hn, hnot, by omega, ?_⟩
  rw [hmemory, hrest]
  simp only [record, List.append_assoc, List.singleton_append, Nat.add_assoc]

/-! ### What is read is what the macros assemble -/

theorem readDepends_eq_ok {names : List (List UInt8)} {buf' : Nat}
    (h : readDepends memory stop fuel buf = .ok (names, buf')) (hbuf : buf ≤ memory.length) :
    buf' ≤ memory.length ∧ (∀ name ∈ names, 0 ∉ name) ∧
      memory.drop buf = names.flatMap (record 0) ++ memory.drop buf' := by
  induction fuel generalizing buf names with
  | zero => cases h
  | succ fuel ih =>
      rw [readDepends] at h
      obtain ⟨pointer, hword, h⟩ := bind_eq_ok.mp h
      split at h
      · rename_i hcond
        obtain ⟨name, hname, h⟩ := bind_eq_ok.mp h
        obtain ⟨⟨names', buf''⟩, hread, h⟩ := bind_eq_ok.mp h
        cases h
        obtain ⟨-, hnot, hlen, hrecord⟩ := record_of_ok hword hname
        obtain ⟨hle, hnames, hrest⟩ := ih hread hlen
        refine ⟨hle, List.forall_mem_cons.mpr ⟨hnot, hnames⟩, ?_⟩
        rw [hrecord, hcond.1, hrest, List.flatMap_cons, List.append_assoc]
      · cases h
        exact ⟨hbuf, by simp, rfl⟩

theorem readFunctions_eq_ok {funcs : List InitFunction}
    (h : readFunctions memory stop fuel buf = .ok funcs) (hbuf : buf ≤ memory.length) :
    stop ≤ memory.length ∧ (∀ f ∈ funcs, f.Proper) ∧
      memory.drop buf = sectionOf funcs ++ memory.drop stop := by
  induction fuel generalizing buf funcs with
  | zero => cases h
  | succ fuel ih =>
      rw [readFunctions] at h
      split at h
      · obtain ⟨pointer, hword, h⟩ := bind_eq_ok.mp h
        split at h
        · cases h
        rename_i hpos
        obtain ⟨name, hname, h⟩ := bind_eq_ok.mp h
        obtain ⟨⟨names, buf'⟩, hdeps, h⟩ := bind_eq_ok.mp h
        obtain ⟨funcs', hread, h⟩ := bind_eq_ok.mp h
        cases h
        obtain ⟨hlt, hnot, hlen, hrecord⟩ := record_of_ok hword hname
        obtain ⟨hle, hnames, hmiddle⟩ := readDepends_eq_ok hdeps hlen
        obtain ⟨hstop, hproper, hrest⟩ := ih hread hle
        refine ⟨hstop, List.forall_mem_cons.mpr ⟨⟨Nat.pos_of_ne_zero hpos, hlt, hnot, hnames⟩,
          hproper⟩, ?_⟩
        rw [hrecord, hmiddle, hrest, sectionOf, sectionOf, List.flatMap_cons,
          InitFunction.section]
        simp only [List.append_assoc]
      · split at h
        · rename_i heq
          cases h
          exact ⟨heq ▸ hbuf, by simp, by rw [heq]; rfl⟩
        · cases h

/-! ### What the macros assemble is read back -/

theorem length_record {pointer : Nat} {name : List UInt8} :
    (record pointer name).length = name.length + 5 := by
  simp [record, long]

theorem word_record {pointer : Nat} {name : List UInt8} (h : pointer < 4294967296)
    (hmemory : memory.drop buf = record pointer name ++ rest) :
    word (memory.drop buf) = .ok pointer := by
  rw [hmemory, record, List.append_assoc, word_long_append h]

theorem cString_record {pointer : Nat} {name : List UInt8} (h : 0 ∉ name)
    (hmemory : memory.drop buf = record pointer name ++ rest) :
    cString (memory.drop (buf + 4)) = .ok name := by
  rw [← List.drop_drop, hmemory]
  simp only [record, long, List.cons_append, List.nil_append, List.drop_succ_cons, List.drop_zero,
    List.append_assoc]
  exact cString_append h

theorem drop_record {pointer : Nat} {name : List UInt8}
    (hmemory : memory.drop buf = record pointer name ++ rest) :
    memory.drop (buf + 4 + name.length + 1) = rest := by
  have hlen : buf + 4 + name.length + 1 = buf + (record pointer name).length := by
    rw [length_record]
    omega
  rw [hlen, ← List.drop_drop, hmemory, List.drop_left]

theorem readDepends_flatMap {names : List (List UInt8)} (hnames : ∀ name ∈ names, 0 ∉ name)
    (hmemory : memory.drop buf = names.flatMap (record 0) ++ rest)
    (hstop : buf + (names.flatMap (record 0)).length ≤ stop)
    (hend : ∃ pointer, word rest = .ok pointer ∧
      (pointer = 0 → stop ≤ buf + (names.flatMap (record 0)).length))
    (hfuel : names.length < fuel) :
    readDepends memory stop fuel buf = .ok (names, buf + (names.flatMap (record 0)).length) := by
  induction names generalizing buf fuel with
  | nil =>
      obtain ⟨fuel, rfl⟩ := Nat.exists_eq_succ_of_ne_zero (Nat.ne_of_gt hfuel)
      obtain ⟨pointer, hword, hpointer⟩ := hend
      rw [List.flatMap_nil, List.nil_append] at hmemory
      have hcond : ¬ (pointer = 0 ∧ buf < stop) := fun h =>
        absurd (hpointer h.1) (Nat.not_le.mpr h.2)
      rw [readDepends, hmemory, hword, bind_eq_ok]
      exact ⟨pointer, rfl, by rw [if_neg hcond]; rfl⟩
  | cons name names ih =>
      obtain ⟨fuel, rfl⟩ := Nat.exists_eq_succ_of_ne_zero (Nat.ne_of_gt (Nat.zero_lt_of_lt hfuel))
      obtain ⟨hname, hnames⟩ := List.forall_mem_cons.mp hnames
      rw [List.flatMap_cons, List.append_assoc] at hmemory
      rw [List.flatMap_cons, List.length_append, length_record] at hstop hend ⊢
      have hnext : buf + 4 + name.length + 1 + (names.flatMap (record 0)).length =
          buf + (name.length + 5 + (names.flatMap (record 0)).length) := by omega
      have hread := ih hnames (drop_record hmemory) (hnext ▸ hstop) (hnext ▸ hend)
        (Nat.lt_of_succ_lt_succ hfuel)
      rw [hnext] at hread
      have hcond : (0 : Nat) = 0 ∧ buf < stop := ⟨rfl, by omega⟩
      rw [readDepends, bind_eq_ok]
      refine ⟨0, word_record (by decide) hmemory, ?_⟩
      rw [if_pos hcond, bind_eq_ok]
      refine ⟨name, cString_record hname hmemory, ?_⟩
      rw [bind_eq_ok]
      exact ⟨_, hread, rfl⟩

/-- The word after the dependencies of a function is the address of the next one. -/
theorem exists_word_sectionOf {funcs : List InitFunction} (hfuncs : ∀ f ∈ funcs, f.Proper)
    (hrest : 4 ≤ rest.length) :
    ∃ pointer, word (sectionOf funcs ++ rest) = .ok pointer ∧ (pointer = 0 → funcs = []) := by
  cases funcs with
  | nil =>
      match rest, hrest with
      | b₀ :: b₁ :: b₂ :: b₃ :: rest, _ => exact ⟨_, rfl, fun _ => rfl⟩
  | cons f funcs =>
      have hf := hfuncs f List.mem_cons_self
      refine ⟨f.ifFunc, ?_, fun h => absurd h (Nat.ne_of_gt hf.pos)⟩
      simp only [sectionOf, List.flatMap_cons, InitFunction.section, record, List.append_assoc]
      exact word_long_append hf.lt

theorem length_flatMap_record (names : List (List UInt8)) :
    5 * names.length ≤ (names.flatMap (record 0)).length := by
  induction names with
  | nil => exact Nat.le_refl _
  | cons name names ih =>
      rw [List.flatMap_cons, List.length_append, List.length_cons, length_record]
      omega

theorem length_le_sectionOf (funcs : List InitFunction) :
    funcs.length ≤ (sectionOf funcs).length := by
  induction funcs with
  | nil => exact Nat.le_refl _
  | cons f funcs ih =>
      have hlen : (sectionOf (f :: funcs)).length = f.section.length + (sectionOf funcs).length :=
        List.length_append
      rw [hlen, List.length_cons, InitFunction.section, List.length_append, length_record]
      omega

theorem readFunctions_sectionOf {funcs : List InitFunction} (hfuncs : ∀ f ∈ funcs, f.Proper)
    (hrest : 4 ≤ rest.length) (hmemory : memory.drop buf = sectionOf funcs ++ rest)
    (hstop : buf + (sectionOf funcs).length = stop) (hfuel : funcs.length < fuel) :
    readFunctions memory stop fuel buf = .ok funcs := by
  induction funcs generalizing buf fuel with
  | nil =>
      obtain ⟨fuel, rfl⟩ := Nat.exists_eq_succ_of_ne_zero (Nat.ne_of_gt hfuel)
      have heq : buf = stop := hstop
      rw [readFunctions, if_neg (by omega), if_pos heq]
      rfl
  | cons f funcs ih =>
      obtain ⟨fuel, rfl⟩ := Nat.exists_eq_succ_of_ne_zero (Nat.ne_of_gt (Nat.zero_lt_of_lt hfuel))
      obtain ⟨hf, hfuncs⟩ := List.forall_mem_cons.mp hfuncs
      rw [sectionOf, List.flatMap_cons, InitFunction.section, List.append_assoc,
        List.append_assoc] at hmemory
      rw [sectionOf, List.flatMap_cons, InitFunction.section, List.length_append,
        List.length_append, length_record] at hstop
      set deps := (f.ifDeps.flatMap (record 0)).length with hdeps
      have hmiddle := drop_record hmemory
      have hafter :
          memory.drop (buf + 4 + f.ifName.length + 1 + deps) = sectionOf funcs ++ rest := by
        rw [← List.drop_drop, hmiddle, hdeps, List.drop_left]
        rfl
      have hlen := congrArg List.length hmiddle
      rw [List.length_drop, List.length_append, ← hdeps] at hlen
      have hmany := length_flatMap_record f.ifDeps
      obtain ⟨pointer, hword, hpointer⟩ := exists_word_sectionOf hfuncs hrest
      have hdepends : readDepends memory stop memory.length (buf + 4 + f.ifName.length + 1) =
          .ok (f.ifDeps, buf + 4 + f.ifName.length + 1 + deps) := by
        refine readDepends_flatMap hf.deps hmiddle (by omega) ⟨pointer, hword, fun h => ?_⟩ ?_
        · have hnil : funcs = [] := hpointer h
          subst hnil
          simp only [List.flatMap_nil, List.length_nil] at hstop
          omega
        · rw [List.length_append] at hlen
          omega
      have hlong : (sectionOf funcs).length = (funcs.flatMap InitFunction.section).length := rfl
      have hread := ih hfuncs hafter (by omega) (Nat.lt_of_succ_lt_succ hfuel)
      rw [readFunctions, if_pos (by omega), bind_eq_ok]
      refine ⟨f.ifFunc, word_record hf.lt hmemory, ?_⟩
      rw [if_neg (Nat.ne_of_gt hf.pos), bind_eq_ok]
      refine ⟨f.ifName, cString_record hf.name hmemory, ?_⟩
      rw [bind_eq_ok]
      refine ⟨_, hdepends, ?_⟩
      rw [bind_eq_ok]
      exact ⟨funcs, hread, rfl⟩

end CodingSample.Util
