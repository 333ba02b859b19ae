import Mathlib.Data.List.Chain

/-!
# Spans and how often they cover a place

A span is a range of numbers given by its start and its length. `coverage` counts the spans of a
list that a number is in. Spans that cover no number twice are apart, and a list of spans makes up a
set exactly if it covers the numbers in the set once and the others not at all, so that splitting,
joining and moving spans is arithmetic on one count.
-/

/-- A range of numbers. -/
structure Span where
  start : ℕ
  len : ℕ
  deriving DecidableEq

namespace Span

open List

/-- The numbers of a span. -/
instance : Membership ℕ Span := ⟨fun s x => s.start ≤ x ∧ x < s.start + s.len⟩

theorem mem_def {x : ℕ} {s : Span} : x ∈ s ↔ s.start ≤ x ∧ x < s.start + s.len := Iff.rfl

/-- Two comparisons. -/
instance (x : ℕ) (s : Span) : Decidable (x ∈ s) := inferInstanceAs (Decidable (_ ∧ _))

/-- No number is in both. -/
def Apart (s t : Span) : Prop := ∀ x, ¬ (x ∈ s ∧ x ∈ t)

/-- The number of spans that a number is in. -/
def coverage (spans : List Span) (x : ℕ) : ℕ := spans.countP fun s => decide (x ∈ s)

variable {spans : List Span} {s : Span} {x : ℕ}

theorem coverage_cons (s : Span) (spans : List Span) (x : ℕ) :
    coverage (s :: spans) x = coverage spans x + if x ∈ s then 1 else 0 := by
  simp only [coverage, countP_cons, decide_eq_true_eq]

theorem coverage_append (first second : List Span) (x : ℕ) :
    coverage (first ++ second) x = coverage first x + coverage second x :=
  countP_append

theorem coverage_erase (hs : s ∈ spans) (x : ℕ) :
    coverage spans x = coverage (spans.erase s) x + if x ∈ s then 1 else 0 := by
  rw [← coverage_cons]
  exact (perm_cons_erase hs).countP_eq _

theorem coverage_pos : 0 < coverage spans x ↔ ∃ s ∈ spans, x ∈ s := by
  simp only [coverage, countP_pos_iff, decide_eq_true_eq]

/-- Spans that cover no number twice are apart. -/
theorem pairwise_apart (h : ∀ x, coverage spans x ≤ 1) : spans.Pairwise Apart := by
  induction spans with
  | nil => exact .nil
  | cons s rest ih =>
    have hrest : ∀ x, coverage rest x ≤ 1 := fun x => by
      have hx := h x
      rw [coverage_cons] at hx
      omega
    refine pairwise_cons.mpr ⟨fun t ht x hx => ?_, ih hrest⟩
    have hpos : 0 < coverage rest x := coverage_pos.mpr ⟨t, ht, hx.2⟩
    have hle := h x
    rw [coverage_cons, if_pos hx.1] at hle
    omega

/-- A span is made of two that touch. -/
theorem mem_split (start first second x : ℕ) :
    (if x ∈ (⟨start, first + second⟩ : Span) then 1 else 0) =
      (if x ∈ (⟨start, first⟩ : Span) then 1 else 0) +
        if x ∈ (⟨start + first, second⟩ : Span) then 1 else 0 := by
  simp only [mem_def]
  split <;> split <;> split <;> omega

/-- There is a gap between the first span and the second. -/
def Gap (s t : Span) : Prop := s.start + s.len < t.start

/-- A gap before a gap. -/
instance : IsTrans Span Gap where
  trans s t u hst htu := by
    unfold Gap at hst htu ⊢
    omega

/-- Spans with gaps between them cover no number twice. -/
theorem coverage_le_one (h : spans.Pairwise Gap) (x : ℕ) : coverage spans x ≤ 1 := by
  induction h with
  | nil => exact Nat.zero_le 1
  | @cons s rest hgap _ ih =>
    rw [coverage_cons]
    split
    · next hx =>
      have hnone : ¬ 0 < coverage rest x := by
        rw [coverage_pos]
        rintro ⟨t, ht, hxt⟩
        have := hgap t ht
        rw [Gap] at this
        rw [mem_def] at hx hxt
        omega
      omega
    · exact ih

/-- Of two spans that are apart and not empty one comes before the other. -/
theorem Apart.before_or_after {t : Span} (h : Apart s t) (hpos : 0 < s.len) (hpos' : 0 < t.len) :
    s.start + s.len ≤ t.start ∨ t.start + t.len ≤ s.start := by
  by_contra hoverlap
  exact h (max s.start t.start) ⟨mem_def.mpr (by omega), mem_def.mpr (by omega)⟩

/-- A span that no other covers comes before or after each of them. -/
theorem before_or_after (hs : s ∈ spans) {t : Span} (hfree : ∀ x ∈ t, coverage spans x = 0)
    (hpos : 0 < s.len) (hpos' : 0 < t.len) :
    s.start + s.len ≤ t.start ∨ t.start + t.len ≤ s.start := by
  refine Apart.before_or_after (fun x hx => ?_) hpos hpos'
  have hcover : 0 < coverage spans x := coverage_pos.mpr ⟨s, hs, hx.1⟩
  have hzero := hfree x hx.2
  omega

end Span
