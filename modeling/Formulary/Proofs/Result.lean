import Mathlib.Tactic.Common
/-!
# Results with a cause of failure

How a result that was put together comes about: each lemma says which parts of a sequence gave a value
and which one failed.
-/

namespace Formulary
namespace Result

variable {ε ε' α β : Type} {r : Except ε α} {k : α → Except ε β} {fault : ε}

@[simp] lemma ok_bind (a : α) : ((.ok a : Except ε α) >>= k) = k a := rfl

@[simp] lemma error_bind : ((.error fault : Except ε α) >>= k) = .error fault := rfl

lemma bind_eq_ok {b : β} : (r >>= k) = .ok b ↔ ∃ a, r = .ok a ∧ k a = .ok b := by
  cases r with
  | error fault => simp
  | ok a => simp

lemma bind_eq_error : (r >>= k) = .error fault ↔
    r = .error fault ∨ ∃ a, r = .ok a ∧ k a = .error fault := by
  cases r with
  | error fault' => simp
  | ok a => simp

@[simp] lemma mapError_ok {f : ε → ε'} (a : α) :
    (.ok a : Except ε α).mapError f = .ok a := rfl

@[simp] lemma mapError_error {f : ε → ε'} :
    (.error fault : Except ε α).mapError f = .error (f fault) := rfl

lemma mapError_eq_ok {f : ε → ε'} {a : α} : r.mapError f = .ok a ↔ r = .ok a := by
  cases r with
  | error fault => simp
  | ok b => simp

lemma mapError_eq_error {f : ε → ε'} {fault' : ε'} :
    r.mapError f = .error fault' ↔ ∃ fault, r = .error fault ∧ f fault = fault' := by
  cases r with
  | error fault => simp
  | ok b => simp

lemma map_eq_ok {f : α → β} {b : β} : f <$> r = .ok b ↔ ∃ a, r = .ok a ∧ f a = b := by
  cases r with
  | error fault => simp
  | ok a => simp

lemma map_eq_error {f : α → β} : f <$> r = .error fault ↔ r = .error fault := by
  cases r with
  | error fault' => simp
  | ok a => simp

end Result
end Formulary
