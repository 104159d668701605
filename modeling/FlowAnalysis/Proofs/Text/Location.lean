import FlowAnalysis.Proofs.Syntax.Nodes

/-!
# The order of locations

Reading on never leads back: a later offset of a text has a location that is the same or stands
behind.

## Main results

* `Location.le_foldl_next` — reading a text leads on.
* `Syntax.locationOf_mono` — **locations are in the order of their offsets.**
-/

namespace FlowAnalysis

namespace Location

variable {a b c : Location}

theorem le_refl (a : Location) : a.le a := .inr ⟨rfl, Nat.le_refl _⟩

theorem le_trans (h : a.le b) (h' : b.le c) : a.le c := by
  unfold le at *
  omega

theorem le_next (a : Location) (ch : Char) : a.le (a.next ch) := by
  unfold next
  split
  · exact .inl (Nat.lt_succ_self _)
  · exact .inr ⟨rfl, Nat.le_add_right _ _⟩

/-- Reading a text leads on. -/
theorem le_foldl_next (a : Location) (text : List Char) : a.le (text.foldl next a) := by
  induction text generalizing a with
  | nil => exact a.le_refl
  | cons ch text ih => exact le_trans (le_next a ch) (ih _)

end Location

/-- **Locations are in the order of their offsets.** -/
theorem Syntax.locationOf_mono (text : Chars) {i j : Nat} (h : i ≤ j) :
    (locationOf text i).le (locationOf text j) := by
  have hslice : text.toList.take j = text.toList.take i ++ (text.toList.take j).drop i := by
    rw [← Nat.min_eq_left h, ← List.take_take, Nat.min_eq_left h, List.take_append_drop]
  rw [locationOf, locationOf, sliceOf_eq, sliceOf_eq, List.drop_zero, List.drop_zero, hslice,
    Location.after, Location.after, List.foldl_append]
  exact Location.le_foldl_next _ _

end FlowAnalysis
