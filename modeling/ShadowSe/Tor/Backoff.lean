import Mathlib.Algebra.Order.Floor.Ring
import Mathlib.Data.Rat.Floor
import Mathlib.Tactic.Ring

namespace ShadowSe

section
variable {K : Type} [Ring K] [LinearOrder K]

/-- `total`, for what the jitter draws. -/
def backoffTotal (attempt : Nat) (baseMs capMs jitter : K) : K :=
  let exp := min capMs (baseMs * (2 ^ attempt : Nat))
  min capMs (exp + jitter)

/-- `static_cast<long long>`. -/
def truncate [FloorRing K] (x : K) : Int :=
  if 0 ≤ x then ⌊x⌋ else ⌈x⌉

def backoffMs [FloorRing K] (attempt : Nat) (baseMs capMs jitter : K) : Int :=
  truncate (backoffTotal attempt baseMs capMs jitter)

theorem backoffTotal_eq (attempt : Nat) (base cap jitter : K) :
    backoffTotal attempt base cap jitter = min cap (min cap (base * 2 ^ attempt) + jitter) := by
  rw [backoffTotal, Nat.cast_pow, Nat.cast_ofNat]

theorem backoffTotal_le (attempt : Nat) (base cap jitter : K) :
    backoffTotal attempt base cap jitter ≤ cap :=
  min_le_left _ _

end

section
variable {K : Type} [Field K] [LinearOrder K] [IsStrictOrderedRing K]
  {base cap : K} (positive : 0 < base) (room : base ≤ cap) (attempt : Nat)
  {jitter : K} (least : 0 ≤ jitter)

include positive room least in
theorem backoffTotal_nonneg : 0 ≤ backoffTotal attempt base cap jitter := by
  have capped : 0 ≤ cap := positive.le.trans room
  have power : 0 ≤ base * 2 ^ attempt := by positivity
  rw [backoffTotal_eq]
  exact le_min capped (add_nonneg (le_min capped power) least)

/-- Below the cap an attempt waits less than the power of the next one. -/
theorem backoffTotal_lt (positive : 0 < base) (draw : jitter < base) :
    backoffTotal attempt base cap jitter < base * 2 ^ (attempt + 1) := by
  have power : base ≤ base * 2 ^ attempt :=
    le_mul_of_one_le_right positive.le (one_le_pow₀ one_le_two)
  rw [backoffTotal_eq]
  calc min cap (min cap (base * 2 ^ attempt) + jitter)
      ≤ min cap (base * 2 ^ attempt) + jitter := min_le_right _ _
    _ ≤ base * 2 ^ attempt + jitter := add_le_add_left (min_le_right _ _) _
    _ < base * 2 ^ attempt + base := add_lt_add_right draw _
    _ ≤ base * 2 ^ attempt + base * 2 ^ attempt := add_le_add_right power _
    _ = base * 2 ^ (attempt + 1) := by ring

include least in
/-- Below the cap an attempt waits at least for its power. -/
theorem le_backoffTotal (below : base * 2 ^ attempt ≤ cap) :
    base * 2 ^ attempt ≤ backoffTotal attempt base cap jitter := by
  rw [backoffTotal_eq]
  exact le_min below (le_add_of_le_of_nonneg (le_min below le_rfl) least)

include least in
theorem backoffTotal_eq_cap (above : cap ≤ base * 2 ^ attempt) :
    backoffTotal attempt base cap jitter = cap := by
  rw [backoffTotal_eq, min_eq_left above]
  exact min_eq_left (le_add_of_nonneg_right least)

theorem backoffTotal_mono (positive : 0 < base) (draw : jitter < base) {next : K}
    (least : 0 ≤ next) :
    backoffTotal attempt base cap jitter ≤ backoffTotal (attempt + 1) base cap next := by
  rcases le_total cap (base * 2 ^ (attempt + 1)) with above | below
  · rw [backoffTotal_eq_cap _ least above]
    exact backoffTotal_le _ _ _ _
  · exact (backoffTotal_lt attempt positive draw).le.trans (le_backoffTotal _ least below)

end

/-- No two draws let a later attempt wait less; with a whole base each waits longer, up to
the cap. -/
theorem backoffMs_exact {K : Type} [Field K] [LinearOrder K] [IsStrictOrderedRing K] [FloorRing K]
    {base cap : K} (positive : 0 < base) (room : base ≤ cap) (attempt : Nat) {jitter next : K}
    (draw : 0 ≤ jitter ∧ jitter < base) (redraw : 0 ≤ next ∧ next < base) :
    backoffMs attempt base cap jitter ≤ backoffMs (attempt + 1) base cap next ∧
      (backoffMs attempt base cap jitter : K) ≤ cap ∧
      ∀ whole : Int, base = whole → base * 2 ^ (attempt + 1) ≤ cap →
        backoffMs attempt base cap jitter < backoffMs (attempt + 1) base cap next := by
  have floored (attempt : Nat) {jitter : K} (least : 0 ≤ jitter) :
      backoffMs attempt base cap jitter = ⌊backoffTotal attempt base cap jitter⌋ :=
    if_pos (backoffTotal_nonneg positive room attempt least)
  rw [floored attempt draw.1, floored (attempt + 1) redraw.1]
  refine ⟨Int.floor_mono (backoffTotal_mono attempt positive draw.2 redraw.1),
    (Int.floor_le _).trans (backoffTotal_le _ _ _ _), fun whole same below => ?_⟩
  have power : base * 2 ^ (attempt + 1) = ((whole * 2 ^ (attempt + 1) : Int) : K) := by
    rw [same]
    push_cast
    rfl
  have before : backoffTotal attempt base cap jitter < base * 2 ^ (attempt + 1) :=
    backoffTotal_lt attempt positive draw.2
  have after := le_backoffTotal (attempt + 1) redraw.1 below
  rw [power] at before after
  exact (Int.floor_lt.mpr before).trans_le (Int.le_floor.mpr after)

theorem backoffMs_exact_default :
    backoffMs 0 (250 : ℚ) 8000 (999 / 4) < backoffMs 1 (250 : ℚ) 8000 0 :=
  (backoffMs_exact (by norm_num) (by norm_num) 0 ⟨by norm_num, by norm_num⟩
    ⟨by norm_num, by norm_num⟩).2.2 250 (by norm_num) (by norm_num)

end ShadowSe
