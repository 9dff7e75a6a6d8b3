import Mathlib.Data.List.Basic
import Mathlib.Order.Nat

/-!
# Sliding windows

A limiter that logs the moments at which it admits, and admits while fewer than `limit` of them are
less than `window` ago. `Admitted.length_between_le`: it admits at most `limit` times in any
interval of that length, wherever the interval begins.
-/

namespace SlidingWindow

/-- The moments of the log that count at a moment: those of the window before it. -/
def counting (window now : ℕ) (log : List ℕ) : List ℕ := log.filter (now < · + window)

/-- The moments of the log in a half-open interval. -/
def between (start stop : ℕ) (log : List ℕ) : List ℕ :=
  log.filter fun t => start ≤ t ∧ t < stop

/-- The logs of the limiter, for a clock that does not go back. -/
inductive Admitted (window limit : ℕ) : List ℕ → Prop
  | nil : Admitted window limit []
  | snoc {log : List ℕ} {now : ℕ} (hlog : Admitted window limit log) (hclock : ∀ t ∈ log, t ≤ now)
      (hroom : (counting window now log).length < limit) : Admitted window limit (log ++ [now])

variable {window limit now later : ℕ} {log : List ℕ}

theorem counting_append (log log' : List ℕ) :
    counting window now (log ++ log') = counting window now log ++ counting window now log' :=
  List.filter_append ..

theorem mem_counting {t : ℕ} : t ∈ counting window now log ↔ t ∈ log ∧ now < t + window := by
  rw [counting, List.mem_filter, decide_eq_true_eq]

/-- What counts later counts already. -/
theorem counting_counting (h : now ≤ later) :
    counting window later (counting window now log) = counting window later log := by
  rw [counting, counting, List.filter_filter]
  refine List.filter_congr fun t _ => ?_
  rw [Bool.and_eq_left_iff_imp, decide_eq_true_eq, decide_eq_true_eq]
  omega

/-- A window after the last moment, nothing counts. -/
theorem counting_eq_nil (h : ∀ t ∈ log, t + window ≤ now) : counting window now log = [] := by
  refine List.filter_eq_nil_iff.mpr fun t ht => ?_
  have hold := h t ht
  rw [decide_eq_true_eq]
  omega

/-- **The bound** of a limiter: no interval holds more than `limit` moments. -/
theorem Admitted.length_between_le (h : Admitted window limit log) (start : ℕ) :
    (between start (start + window) log).length ≤ limit := by
  induction h with
  | nil => exact Nat.zero_le _
  | @snoc log now hlog hclock hroom ih =>
    rw [between, List.filter_append, List.length_append]
    by_cases hin : start ≤ now ∧ now < start + window
    · -- what is in the interval before a new moment in it still counts there
      have hle : (between start (start + window) log).length ≤
          (counting window now log).length := by
        refine (List.monotone_filter_right log fun t ht => ?_).length_le
        rw [decide_eq_true_eq] at ht ⊢
        omega
      have hone : ([now].filter fun t => start ≤ t ∧ t < start + window).length ≤ 1 :=
        List.length_filter_le _ _
      rw [between] at hle
      omega
    · rw [List.filter_cons, if_neg (by simpa using hin)]
      exact ih

end SlidingWindow
