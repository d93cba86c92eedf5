import Stylesheet.Kind.Set

/-!
# Sets of kinds are told by their kinds

Two sets are compared word by word, and the words have more bits than there are kinds. A bit that
belongs to no kind is never looked at, so two sets could have the same kinds and differ. Sets that
are put together from lists and unions do not: all their bits are bits of kinds that went in.

Results:
* `KindSet.Recipe.bit_build`: the bits of a set that is put together.
* `KindSet.Recipe.build_eq_iff`: two such sets are equal iff they have the same kinds.
* `KindSet.membership`: lists, unions and equality, in terms of kinds.
-/
namespace Stylesheet

namespace KindSet

/-- Sets with the same bits are equal. -/
theorem ext_bit {a b : KindSet} (h : ∀ word place, a.bit word place = b.bit word place) :
    a = b := by
  obtain ⟨a⟩ := a
  obtain ⟨b⟩ := b
  suffices hwords : a = b by rw [hwords]
  apply Vector.ext
  intro word hword
  apply UInt64.toBitVec_inj.mp
  apply BitVec.eq_of_getLsbD_eq
  intro place _
  simpa [bit, hword] using h word place

/-- How a set is put together. -/
inductive Recipe where
  | ofList (kinds : List Kind)
  | union (a b : Recipe)

namespace Recipe

/-- The set that is put together. -/
def build : Recipe → KindSet
  | ofList kinds => .ofList kinds
  | union a b => a.build.union b.build

/-- The kinds that go in, repeats or not. -/
def kinds : Recipe → List Kind
  | ofList kinds => kinds
  | union a b => a.kinds ++ b.kinds

/-- Each bit of a set that is put together is the bit of a kind that went in. -/
theorem bit_build (r : Recipe) (word place : Nat) :
    r.build.bit word place = decide (∃ k ∈ r.kinds, k.word = word ∧ k.place = place) := by
  induction r with
  | ofList kinds => exact bit_ofList kinds word place
  | union a b iha ihb => simp [build, kinds, iha, ihb, or_and_right, exists_or]

theorem contains_build (r : Recipe) (k : Kind) : r.build.contains k ↔ k ∈ r.kinds := by
  simp [contains_eq_bit, bit_build, Kind.word_place_inj]

theorem build_eq_iff {r s : Recipe} :
    r.build = s.build ↔ ∀ k, r.build.contains k ↔ s.build.contains k := by
  constructor
  · intro h k
    rw [h]
  · intro h
    have hkinds (k : Kind) : k ∈ r.kinds ↔ k ∈ s.kinds := by
      rw [← contains_build, ← contains_build, h]
    apply ext_bit
    intro word place
    simp only [bit_build, hkinds]

end Recipe

/-- Each kind has its bit in one of the words. A list and a union have the kinds that they should,
and sets that are put together from them are equal iff they have the same kinds. -/
theorem membership :
    (∀ k : Kind, k.word < wordCount ∧ k.place < wordSize) ∧
    (∀ ks k, (ofList ks).contains k ↔ k ∈ ks) ∧
    (∀ a b k, (union a b).contains k ↔ a.contains k ∨ b.contains k) ∧
    (∀ (r : Recipe) k, r.build.contains k ↔ k ∈ r.kinds) ∧
    ∀ r s : Recipe, r.build = s.build ↔ ∀ k, r.build.contains k ↔ s.build.contains k := by
  refine ⟨?_, ?_, ?_, Recipe.contains_build, ?_⟩
  · intro k
    exact ⟨k.word_lt, k.place_lt⟩
  · intro ks k
    simp
  · intro a b k
    simp
  · intro r s
    exact Recipe.build_eq_iff

end KindSet

end Stylesheet
