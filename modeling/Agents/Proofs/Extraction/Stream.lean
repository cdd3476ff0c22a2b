import Agents.Proofs.Extraction
import Mathlib.Data.List.Infix

/-! # Splitting a stream on demand

A stream that is split on demand keeps what was not asked for yet. None of this shows in what it
gives out (`stream_relays`): for each fragment it gives what the extractor gives out when the
fragment is pushed, for each error the error, and at the end what was held. Errors leave the
extractor as it is, also between the halves of a delimiter.
-/

namespace Agents

variable {ε : Type}

/-! ## Asking until the end -/

namespace ExtractStream

/-- The stream gives out these items, one each time it is asked, and then ends. -/
def Yields : ExtractStream ε → List (Except ε ExtractChunk) → Prop
  | s, [] => s.next? = none
  | s, item :: items => ∃ rest, s.next? = some (item, rest) ∧ rest.Yields items

theorem yields_items (s : ExtractStream ε) : s.Yields s.items := by
  fun_induction items s with
  | case1 s item rest h ih => exact ⟨rest, h, ih⟩
  | case2 s h => exact h

end ExtractStream

namespace Extractor

/-! ## Piece by piece -/

def answer (e : Extractor) : Except ε (List Char) → List (Except ε ExtractChunk)
  | .ok fragment => (e.push fragment).1.map .ok
  | .error err => [.error err]

def pass (e : Extractor) : Except ε (List Char) → Extractor
  | .ok fragment => (e.push fragment).2
  | .error _ => e

/-- The extractor after pieces of the input, of which it takes the fragments. -/
def after (e : Extractor) (pieces : List (Except ε (List Char))) : Extractor :=
  (e.pushAll (pieces.filterMap Except.toOption)).2

theorem after_nil (e : Extractor) : e.after ([] : List (Except ε (List Char))) = e := rfl

theorem after_cons (e : Extractor) (piece : Except ε (List Char))
    (pieces : List (Except ε (List Char))) :
    e.after (piece :: pieces) = (e.pass piece).after pieces := by
  cases piece <;> rfl

theorem extractStream_cons (e : Extractor) (piece : Except ε (List Char))
    (input : List (Except ε (List Char))) :
    e.extractStream (piece :: input) = e.answer piece ++ (e.pass piece).extractStream input := by
  cases piece with
  | ok fragment => exact extractStream_cons_ok e fragment input
  | error err => exact extractStream_cons_error e err input

/-- Each piece is answered by the extractor that took all fragments before. -/
theorem extractStream_eq (e : Extractor) (input : List (Except ε (List Char))) :
    e.extractStream input =
      (input.inits.zip input).flatMap (fun (before, piece) => (e.after before).answer piece) ++
        (e.after input).finish.1.map .ok := by
  induction input generalizing e with
  | nil => exact extractStream_nil e
  | cons piece input ih =>
    rw [extractStream_cons, ih, List.inits_cons, List.zip_cons_cons, List.flatMap_cons,
      List.zip_map_left, List.flatMap_map, List.append_assoc]
    simp only [after_nil, after_cons, Prod.map, id]

theorem filter_answer (e : Extractor) (piece : Except ε (List Char)) :
    (e.answer piece).filter Except.isOk = if piece.isOk then e.answer piece else [] := by
  cases piece with
  | ok fragment => simp [answer, Except.isOk, Except.toBool]
  | error err => simp [answer, Except.isOk, Except.toBool]

/-- Without its errors, a stream is split as if they had not been there. -/
theorem filter_extractStream (e : Extractor) (input : List (Except ε (List Char))) :
    (e.extractStream input).filter Except.isOk = e.extractStream (input.filter Except.isOk) := by
  induction input generalizing e with
  | nil => simp [extractStream_nil, Except.isOk, Except.toBool]
  | cons piece input ih =>
    rw [extractStream_cons, List.filter_append, filter_answer, ih]
    cases piece with
    | ok fragment => exact (extractStream_cons e (.ok fragment) _).symm
    | error err => rfl

/-- What a new stream gives out until it ends: for each fragment what the extractor gives out when
it is pushed, for each error the error, in the order of the input, and then what was held. The
errors change nothing else. -/
theorem stream_relays (d : Delimiters) (input : List (Except ε (List Char))) :
    (ExtractStream.mk input (new d) [] false).Yields ((new d).extractStream input) ∧
      (new d).extractStream input =
        (input.inits.zip input).flatMap
            (fun (before, piece) => ((new d).after before).answer piece) ++
          ((new d).after input).finish.1.map .ok ∧
      ((new d).extractStream input).filter Except.isOk =
        (new d).extractStream (input.filter Except.isOk) :=
  ⟨ExtractStream.yields_items _, extractStream_eq (new d) input, filter_extractStream (new d) input⟩

-- an error between the halves of a delimiter, and one behind the last fragment
example : (new ⟨"##".toList, "##".toList⟩).extractStream
      [.ok "a #".toList, .error 1, .ok "#b".toList, .error 2] =
    [.ok (.text "a ".toList), .error 1, .error 2, .ok (.block ['b'])] := by
  decide +kernel

end Extractor

end Agents
