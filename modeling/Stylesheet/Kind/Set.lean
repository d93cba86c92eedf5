import Stylesheet.Kind.Basic

/-!
# Sets of kinds

A set is one bit per kind, packed into words. The bit of a kind is in word `Kind.word`, at
`Kind.place`; what is put into a set and what is looked for are both made out of `Kind.mask`, the
word with that bit alone.

* `Kind.word_lt`: each kind has its bit in one of the words.
* `KindSet.bit_union`, `KindSet.bit_ofList`: the bits of a set, those of no kind included.
* `KindSet.contains_union`: a kind is in a union iff it is in one of the two.
* `KindSet.contains_ofList`: a kind is in the set of a list iff it is in the list.
-/
namespace Stylesheet

namespace KindSet

/-- The number of bits in a word. -/
def wordSize : Nat := 64

/-- The number of words in a set. -/
def wordCount : Nat := 2

end KindSet

/-! ## Bits of kinds -/

namespace Kind

theorem index_lt (k : Kind) : k.index < all.length := by cases k <;> decide

theorem index_inj {a b : Kind} : a.index = b.index ↔ a = b := by
  constructor
  · intro h
    have hab : Kind.all[a.index]? = Kind.all[b.index]? := by rw [h]
    have ha : Kind.all[a.index]? = some a := by cases a <;> rfl
    have hb : Kind.all[b.index]? = some b := by cases b <;> rfl
    simpa [ha, hb] using hab
  · rintro rfl; rfl

/-- The word that has the bit of a kind. -/
def word (k : Kind) : Nat := k.index / KindSet.wordSize

/-- Where in its word the bit of a kind is. -/
def place (k : Kind) : Nat := k.index % KindSet.wordSize

/-- The word with the bit of a kind alone. -/
def mask (k : Kind) : UInt64 := 1 <<< UInt64.ofNat k.place

theorem word_lt (k : Kind) : k.word < KindSet.wordCount := by
  have hfits : all.length ≤ KindSet.wordSize * KindSet.wordCount := by decide
  exact Nat.div_lt_of_lt_mul (Nat.lt_of_lt_of_le k.index_lt hfits)

theorem place_lt (k : Kind) : k.place < KindSet.wordSize := Nat.mod_lt _ (by decide)

/-- No two kinds have one bit. -/
theorem word_place_inj {a b : Kind} : a.word = b.word ∧ a.place = b.place ↔ a = b := by
  constructor
  · rintro ⟨hword, hplace⟩
    unfold word at hword
    unfold place at hplace
    rw [← index_inj, ← Nat.div_add_mod a.index KindSet.wordSize, hword, hplace, Nat.div_add_mod]
  · rintro rfl
    exact ⟨rfl, rfl⟩

theorem toBitVec_mask (k : Kind) : k.mask.toBitVec = BitVec.twoPow 64 k.place := by
  have hplace : (BitVec.ofNat 64 k.place % 64).toNat = k.place := by
    have hlt : k.place < 64 := k.place_lt
    simp only [BitVec.toNat_umod, BitVec.toNat_ofNat, show (64 : BitVec 64).toNat = 64 from rfl]
    omega
  rw [mask, UInt64.toBitVec_shiftLeft, UInt64.toBitVec_ofNat', BitVec.shiftLeft_eq', hplace]
  rfl

/-- Masking a word tells the bit of a kind. -/
theorem and_mask_ne_zero (w : UInt64) (k : Kind) :
    (w &&& k.mask != 0) = w.toBitVec.getLsbD k.place := by
  rw [Bool.eq_iff_iff, bne_iff_ne, ne_eq, ← UInt64.toBitVec_inj, UInt64.toBitVec_and,
    toBitVec_mask, BitVec.and_twoPow]
  split
  · next hbit =>
    refine iff_of_true (fun hzero => ?_) hbit
    have hlt : k.place < 64 := k.place_lt
    have hnone := congrArg (·.getLsbD k.place) hzero
    simp [hlt] at hnone
  · next hbit => simp [hbit]

end Kind

/-! ## Sets -/

/-- A set of kinds. Mirrors `SyntaxSet`. -/
structure KindSet where
  words : Vector UInt64 KindSet.wordCount
  deriving DecidableEq

namespace KindSet

def empty : KindSet := ⟨Vector.replicate wordCount 0⟩

/-- Mirrors `SyntaxSet::from_kind`. -/
def singleton (k : Kind) : KindSet := ⟨empty.words.set k.word k.mask k.word_lt⟩

/-- Mirrors `SyntaxSet::union`. -/
def union (a b : KindSet) : KindSet := ⟨.ofFn fun i => a.words[i] ||| b.words[i]⟩

/-- The set of the kinds in a list, repeats or not. Mirrors `SyntaxSet::new`. -/
def ofList (ks : List Kind) : KindSet := ks.foldl (fun s k => s.union (singleton k)) empty

/-- Mirrors `SyntaxSet::contains`. -/
def contains (s : KindSet) (k : Kind) : Bool := s.words.get ⟨k.word, k.word_lt⟩ &&& k.mask != 0

def isEmpty (s : KindSet) : Bool := s = empty

/-- The kinds of a set, in the order of kinds. -/
def members (s : KindSet) : List Kind := Kind.all.filter s.contains

/-! ### Bits of sets -/

/-- The bit at a place in a word. -/
def bit (s : KindSet) (word place : Nat) : Bool := s.words[word]?.any (·.toBitVec.getLsbD place)

@[simp] theorem bit_empty (word place : Nat) : empty.bit word place = false := by
  simp only [bit, empty, Vector.getElem?_replicate]
  split <;> simp

@[simp] theorem bit_union (a b : KindSet) (word place : Nat) :
    (a.union b).bit word place = (a.bit word place || b.bit word place) := by
  simp only [bit, union, Vector.getElem?_ofFn]
  by_cases h : word < wordCount <;> simp [h]

@[simp] theorem bit_singleton (k : Kind) (word place : Nat) :
    (singleton k).bit word place = decide (k.word = word ∧ k.place = place) := by
  have hempty := bit_empty word place
  rw [bit] at hempty
  rw [bit, singleton, Vector.getElem?_set]
  by_cases h : k.word = word
  · have hlt : k.place < 64 := k.place_lt
    simp [h, Kind.toBitVec_mask, hlt]
  · rw [if_neg h, hempty]
    simp [h]

private theorem bit_foldl (ks : List Kind) (s : KindSet) (word place : Nat) :
    (ks.foldl (fun s k => s.union (singleton k)) s).bit word place
      = (s.bit word place || decide (∃ k ∈ ks, k.word = word ∧ k.place = place)) := by
  induction ks generalizing s with
  | nil => simp
  | cons a ks ih => simp [ih, Bool.or_assoc]

@[simp] theorem bit_ofList (ks : List Kind) (word place : Nat) :
    (ofList ks).bit word place = decide (∃ k ∈ ks, k.word = word ∧ k.place = place) := by
  simp [ofList, bit_foldl]

theorem contains_eq_bit (s : KindSet) (k : Kind) : s.contains k = s.bit k.word k.place := by
  have hword : s.words[k.word]? = some (s.words.get ⟨k.word, k.word_lt⟩) :=
    Vector.getElem?_eq_getElem _
  rw [bit, hword, contains, Kind.and_mask_ne_zero, Option.any_some]

/-! ### Membership -/

@[simp] theorem contains_singleton (a k : Kind) : (singleton a).contains k = decide (k = a) := by
  simp [contains_eq_bit, Kind.word_place_inj, eq_comm]

@[simp] theorem contains_union (a b : KindSet) (k : Kind) :
    (a.union b).contains k = (a.contains k || b.contains k) := by
  simp [contains_eq_bit]

@[simp] theorem contains_ofList (ks : List Kind) (k : Kind) :
    (ofList ks).contains k = decide (k ∈ ks) := by
  simp [contains_eq_bit, Kind.word_place_inj]

/-- Kinds with their bits in different words. -/
example : (ofList [.leftBrace, .animationKeyframe]).members = [.leftBrace, .animationKeyframe] := by
  decide

end KindSet

end Stylesheet
