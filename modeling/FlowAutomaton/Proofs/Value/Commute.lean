/-
The order of updates. A cell that one update writes does not matter to an update of something else
(`write_put`), and cells that are written to different targets are written in either order
(`put_comm`). So two updates of different targets go either way, whether or not they fail, and any
number of them in any order.
-/
import FlowAutomaton.Proofs.Value.Update
import Mathlib.Data.List.Perm.Basic

namespace FlowAutomaton.Value

variable {v : Value} {u w : Update}

/-- What an update does is the same after an update of something else. -/
theorem write_after (h : u.target ≠ w.target) : w.write (v.after u) = w.write v := by
  cases hu : u.write v with
  | ok x => rw [after_of_ok hu, write_put (target_write hu ▸ h)]
  | error e => rw [after_of_error hu]

theorem after_after_comm (h : u.target ≠ w.target) : (v.after u).after w = (v.after w).after u := by
  have hw := write_after (v := v) h
  have hu := write_after (v := v) h.symm
  cases hux : u.write v with
  | error e => rw [after_of_error hux, after_of_error (hu.trans hux)]
  | ok x =>
    cases hwy : w.write v with
    | error e => rw [after_of_error hwy, after_of_error (hw.trans hwy)]
    | ok y =>
      have hxy : x.target ≠ y.target := by
        rw [target_write hux, target_write hwy]
        exact h
      rw [after_of_ok (hw.trans hwy), after_of_ok (hu.trans hux), after_of_ok hux, after_of_ok hwy,
        put_comm hxy]

/-- Two updates of different targets end in the same way in either order, and leave the same value. -/
theorem updates_commute (v : Value) {u w : Update} (h : u.target ≠ w.target) :
    (u.action.run (v.after w)).result = (u.action.run v).result ∧
      (w.action.run (v.after u)).result = (w.action.run v).result ∧
      (v.after u).after w = (v.after w).after u := by
  refine ⟨?_, ?_, after_after_comm h⟩
  · rw [result_action, result_action, write_after h.symm]
  · rw [result_action, result_action, write_after h]

/-- Memory at one address with two counts, of which the second is asked for in a region without a
name and is not written. -/
theorem updates_commute_counts :
    let a : Address := ⟨.stack, 0x10, 32⟩
    let u : Update := .setMemory true ⟨a, 4⟩ .global ⟨.exact 1, none⟩
    let w : Update := .setMemory true ⟨a, 8⟩ (.ofCode 5) ⟨.bytes "90", none⟩
    u.target ≠ w.target ∧
      (u.action.run ({} : Value)).result = .ok () ∧
      (w.action.run ({} : Value)).result = .error (.unexpectedRegion 5) ∧
      (u.action.run (after {} w)).result = (u.action.run {}).result ∧
      (w.action.run (after {} u)).result = (w.action.run {}).result ∧
      (after {} u).after w = (after {} w).after u := by
  intro a u w
  have h : u.target ≠ w.target := by decide
  exact ⟨h, rfl, rfl, updates_commute {} h⟩

/-- Updates of different targets leave the same value in any order. -/
theorem afterAll_perm {us ws : List Update} (hp : us.Perm ws)
    (hd : us.Pairwise fun u w => u.target ≠ w.target) (v : Value) :
    v.afterAll us = v.afterAll ws := by
  refine hp.foldl_eq' (fun u hu w hw v => ?_) v
  by_cases he : u = w
  · rw [he]
  · have : Std.Symm fun u w : Update => u.target ≠ w.target := ⟨fun _ _ h => h.symm⟩
    exact after_after_comm (hd.forall hu hw he)

end FlowAutomaton.Value
