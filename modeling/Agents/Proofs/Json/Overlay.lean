import Agents.Proofs.Json.Ordered
import Agents.Proofs.Json.Rereading

/-! # Objects over objects

Of objects that are written over one another, the last one that has a key says what is found under
it (`get?_foldl_overlay`). Objects that were read have their members in order (`ordered_of_parse`).
-/

namespace Agents.Json

namespace Fields

theorem overlay_concat (fields news : Fields) (member : String × Json) :
    overlay fields (news ++ [member]) = insert member.1 member.2 (overlay fields news) := by
  rw [overlay, List.foldl_append]
  rfl

theorem ordered_overlay {fields : Fields} (h : fields.Ordered) (news : Fields) :
    (overlay fields news).Ordered := by
  induction news using List.reverseRecOn with
  | nil => exact h
  | append_singleton news member ih =>
    rw [overlay_concat]
    exact ordered_insert ih member.1 member.2

theorem ordered_foldl_overlay {base : Fields} (h : base.Ordered) (objects : List Fields) :
    (objects.foldl overlay base).Ordered := by
  induction objects generalizing base with
  | nil => exact h
  | cons fields objects ih => exact ih (ordered_overlay h fields)

theorem get?_overlay_last? (key : String) (fields news : Fields) :
    get? key (overlay fields news) = (last? key news).or (get? key fields) := by
  induction news using List.reverseRecOn with
  | nil => rfl
  | append_singleton news member ih =>
    obtain ⟨k, v⟩ := member
    rw [overlay_concat, last?_concat]
    split_ifs with hk
    · rw [hk, get?_insert_self]
      rfl
    · rw [get?_insert_ne (Ne.symm hk), ih]

theorem nodup_of_ordered {fields : Fields} (h : fields.Ordered) : (fields.map (·.1)).Nodup :=
  List.pairwise_map.mpr (h.imp fun hlt => String.ne_of_lt hlt)

theorem get?_overlay {news : Fields} (h : news.Ordered) (key : String) (fields : Fields) :
    get? key (overlay fields news) = (get? key news).or (get? key fields) := by
  rw [get?_overlay_last?, ← get?_ofList_eq_last?, get?_ofList_eq (nodup_of_ordered h)]

/-- The last object that has the key counts. -/
theorem get?_foldl_overlay {objects : List Fields} (h : ∀ fields ∈ objects, fields.Ordered)
    (key : String) (base : Fields) :
    get? key (objects.foldl overlay base) =
      (objects.reverse.findSome? (get? key)).or (get? key base) := by
  induction objects using List.reverseRecOn with
  | nil => rfl
  | append_singleton objects last ih =>
    rw [List.foldl_append, List.reverse_concat, List.findSome?_cons]
    show get? key (overlay (objects.foldl overlay base) last) = _
    rw [get?_overlay (h last (by simp)), ih fun fields hfields => h fields (by simp [hfields])]
    cases get? key last <;> rfl

end Fields

theorem ordered_of_parse {text : String} {fields : Fields} (h : parse text = .ok (.obj fields)) :
    fields.Ordered := by
  obtain ⟨⟨_, tree, _, _, hvalid, _, _⟩, hvalue⟩ := exists_spelling (parse_eq_ok_iff.mp h)
  cases hvalid with
  | scalar hscalar =>
    cases hvalue
    cases hscalar
  | @node _ kind lead entries =>
    rw [ParseTree.value_node] at hvalue
    cases kind with
    | list => cases hvalue
    | object =>
      cases hvalue
      exact Fields.ordered_ofList _

end Agents.Json
