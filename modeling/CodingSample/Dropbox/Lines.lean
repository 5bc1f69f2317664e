import Mathlib.Data.List.Basic

/-!
# Lines of words

What a `StringTokenizer` finds in a line that was put together from words.
-/

namespace CodingSample.Dropbox

/-- A string of Java, as its UTF-16 units. -/
abbrev JString := List UInt16

/-- An ASCII literal. -/
def java (s : String) : JString := s.toList.map fun c => UInt16.ofNat c.toNat

def space : UInt16 := 32

/-- The default delimiters of a `StringTokenizer`. -/
def isDelim (c : UInt16) : Bool := c = 32 ∨ c = 9 ∨ c = 10 ∨ c = 13 ∨ c = 12

/-- The tokens of a `StringTokenizer`. -/
def tokens (line : JString) : List JString := (line.splitOnP isDelim).filter (· ≠ [])

/-- A string that can be a token. -/
def IsToken (word : JString) : Prop := word ≠ [] ∧ ∀ c ∈ word, isDelim c = false

instance : DecidablePred IsToken := fun word =>
  decidable_of_iff (word ≠ [] ∧ word.any isDelim = false) <| by
    rw [IsToken, List.any_eq_false]
    simp only [Bool.not_eq_true]

/-- Words with a space between them. -/
def unwords : List JString → JString
  | [] => []
  | [word] => word
  | word :: words => word ++ space :: unwords words

variable {word line : JString} {words : List JString}

theorem tokens_nil : tokens [] = [] := rfl

theorem tokens_word (h : IsToken word) : tokens word = [word] := by
  rw [tokens, List.splitOnP_eq_singleton h.2]
  exact List.filter_cons_of_pos (decide_eq_true h.1)

theorem tokens_append (h : IsToken word) :
    tokens (word ++ space :: line) = word :: tokens line := by
  rw [tokens, List.splitOnP_append_cons_of_forall_mem h.2 space (by decide)]
  exact List.filter_cons_of_pos (decide_eq_true h.1)

/-- Words are read back. -/
theorem tokens_unwords (h : ∀ word ∈ words, IsToken word) : tokens (unwords words) = words := by
  induction words with
  | nil => rfl
  | cons word words ih =>
      have hword := h word List.mem_cons_self
      cases words with
      | nil => exact tokens_word hword
      | cons word' words =>
          rw [unwords, tokens_append hword, ih fun w hw => h w (List.mem_cons_of_mem word hw)]
          exact List.cons_ne_nil _ _

/-- No separator is left in what a string is split into. -/
theorem forall_of_mem_splitOnP {α : Type} {p : α → Bool} {word line : List α}
    (h : word ∈ line.splitOnP p) : ∀ c ∈ word, p c = false := by
  induction line generalizing word with
  | nil =>
      obtain rfl := List.mem_singleton.mp h
      exact nofun
  | cons c line ih =>
      rw [List.splitOnP_cons_eq_if_modifyHead] at h
      split at h
      · rcases List.mem_cons.mp h with rfl | h
        · exact nofun
        · exact ih h
      · rename_i hc
        cases hsplit : line.splitOnP p with
        | nil => exact absurd hsplit (List.splitOnP_ne_nil _ _)
        | cons first rest =>
            rw [hsplit] at h ih
            rcases List.mem_cons.mp h with rfl | h
            · intro d hd
              rcases List.mem_cons.mp hd with rfl | hd
              · exact Bool.eq_false_iff.mpr hc
              · exact ih List.mem_cons_self d hd
            · exact ih (List.mem_cons_of_mem _ h)

/-- Whatever a tokenizer returns is a token. -/
theorem isToken_of_mem (h : word ∈ tokens line) : IsToken word := by
  obtain ⟨hmem, hne⟩ := List.mem_filter.mp h
  exact ⟨of_decide_eq_true hne, forall_of_mem_splitOnP hmem⟩

end CodingSample.Dropbox
