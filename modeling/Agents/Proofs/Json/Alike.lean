import Agents.Proofs.Json.Ordered
import Agents.Proofs.Json.Rereading

/-! # Values up to the order of their keys

A value may be written with the members of its objects in any order, and with several members of
one name, of which the last counts. Two ways to write a value are alike if every object has the
same keys in both and what counts under each key is alike (`Alike`). The value that is held once
the members are in their places (`reread`) is then the same, and only then (`reread_eq_iff`).
-/

namespace Agents.Json

namespace Fields

theorem get?_rereadFields (key : String) (fields : Fields) :
    get? key (rereadFields fields) = (last? key fields).map reread := by
  rw [rereadFields, get?_ofList_eq_last?, last?, ← List.map_reverse, get?_map, last?]

end Fields

/-- Values that differ only in how the members of their objects are written: in which order, and
after which others of the same name. -/
inductive Alike : Json → Json → Prop where
  | null : Alike .null .null
  | bool (b : Bool) : Alike (.bool b) (.bool b)
  | num (n : Number) : Alike (.num n) (.num n)
  | str (s : String) : Alike (.str s) (.str s)
  | arr {as bs : List Json} (hlength : as.length = bs.length)
      (h : ∀ pair ∈ as.zip bs, Alike pair.1 pair.2) : Alike (.arr as) (.arr bs)
  | obj {as bs : Fields}
      (hkeys : ∀ key, (Fields.last? key as).isSome = (Fields.last? key bs).isSome)
      (h : ∀ key a b, Fields.last? key as = some a → Fields.last? key bs = some b → Alike a b) :
      Alike (.obj as) (.obj bs)

theorem map_reread_eq {as bs : List Json} (hlength : as.length = bs.length)
    (h : ∀ pair ∈ as.zip bs, pair.1.reread = pair.2.reread) : as.map reread = bs.map reread := by
  induction as generalizing bs with
  | nil => rw [List.eq_nil_of_length_eq_zero hlength.symm]
  | cons a as ih =>
    cases bs with
    | nil => cases hlength
    | cons b bs =>
      obtain ⟨hhead, hrest⟩ := List.forall_mem_cons.mp h
      rw [List.map_cons, List.map_cons, hhead, ih (Nat.succ.inj hlength) hrest]

/-- The order in which members are written is lost when they are put in their places. -/
theorem Alike.reread_eq {a b : Json} (h : a.Alike b) : a.reread = b.reread := by
  induction h with
  | null => rfl
  | bool b => rfl
  | num n => rfl
  | str s => rfl
  | arr hlength _ ih => rw [reread_arr, reread_arr, map_reread_eq hlength ih]
  | @obj as bs hkeys _ ih =>
    have hfields : rereadFields as = rereadFields bs := by
      refine Fields.ext_of_ordered (Fields.ordered_ofList _) (Fields.ordered_ofList _)
        fun key => ?_
      rw [Fields.get?_rereadFields, Fields.get?_rereadFields]
      have hkey := hkeys key
      cases ha : Fields.last? key as with
      | none =>
        rw [ha] at hkey
        rw [Option.not_isSome_iff_eq_none.mp (Bool.eq_false_iff.mp hkey.symm)]
      | some v =>
        rw [ha] at hkey
        obtain ⟨w, hw⟩ := Option.isSome_iff_exists.mp hkey.symm
        rw [hw, Option.map_some, Option.map_some, ih key v w ha hw]
    rw [reread_obj, reread_obj, hfields]

theorem zip_of_map_reread_eq {as bs : List Json} (h : as.map reread = bs.map reread) :
    ∀ pair ∈ as.zip bs, pair.1 ∈ as ∧ pair.1.reread = pair.2.reread := by
  intro pair hpair
  obtain ⟨i, hi, rfl⟩ := List.mem_iff_getElem.mp hpair
  have hitem := congrArg (·[i]?) h
  rw [List.length_zip, lt_min_iff] at hi
  simp only [List.getElem?_map, List.getElem?_eq_getElem hi.1, List.getElem?_eq_getElem hi.2,
    Option.map_some] at hitem
  rw [List.getElem_zip]
  exact ⟨List.getElem_mem hi.1, Option.some.inj hitem⟩

@[simp] theorem reread_null : reread .null = .null := rfl

@[simp] theorem reread_bool (b : Bool) : reread (.bool b) = .bool b := by cases b <;> rfl

@[simp] theorem reread_num (n : Number) : reread (.num n) = .num n := rfl

@[simp] theorem reread_str (s : String) : reread (.str s) = .str s := rfl

theorem Alike.of_reread_eq {a b : Json} (h : a.reread = b.reread) : a.Alike b := by
  induction a using Json.induct generalizing b with
  | null =>
    cases b with
    | null => exact .null
    | _ => simp [reread_arr, reread_obj] at h
  | bool c =>
    cases b with
    | bool d =>
      obtain rfl : c = d := by simpa using h
      exact .bool c
    | _ => simp [reread_arr, reread_obj] at h
  | num n =>
    cases b with
    | num m =>
      obtain rfl : n = m := by simpa using h
      exact .num n
    | _ => simp [reread_arr, reread_obj] at h
  | str s =>
    cases b with
    | str t =>
      obtain rfl : s = t := by simpa using h
      exact .str s
    | _ => simp [reread_arr, reread_obj] at h
  | arr as ih =>
    cases b with
    | arr bs =>
      rw [reread_arr, reread_arr] at h
      have hitems : as.map reread = bs.map reread := Json.arr.inj h
      have hzip := zip_of_map_reread_eq hitems
      exact .arr (by simpa using congrArg List.length hitems)
        fun pair hpair => ih pair.1 (hzip pair hpair).1 (hzip pair hpair).2
    | _ => simp [reread_arr, reread_obj] at h
  | obj as ih =>
    cases b with
    | obj bs =>
      rw [reread_obj, reread_obj] at h
      have hmember (key : String) :
          (Fields.last? key as).map reread = (Fields.last? key bs).map reread := by
        rw [← Fields.get?_rereadFields, ← Fields.get?_rereadFields, Json.obj.inj h]
      refine .obj (fun key => ?_) fun key a b ha hb => ?_
      · simpa using congrArg Option.isSome (hmember key)
      · have hvalue := hmember key
        rw [ha, hb] at hvalue
        exact ih (key, a) (Fields.mem_of_last? ha) (Option.some.inj hvalue)
    | _ => simp [reread_arr, reread_obj] at h

/-- Two ways to write a value come to the same value exactly if they are alike. -/
theorem reread_eq_iff {a b : Json} : a.reread = b.reread ↔ a.Alike b :=
  ⟨Alike.of_reread_eq, Alike.reread_eq⟩

end Agents.Json
