import Agents.Proofs.Text.Utf8
import Agents.Proofs.Url.Percent
import Agents.Proofs.Url.Reading

/-! # Query strings of forms are read back

The query string of a form is read by cutting it at the ampersands and every piece at its first
equals sign, and then by decoding what is left: a plus sign is a blank, and a percent sign stands
before the digits of a byte. An encoded name or value holds neither of the marks that are cut at, and
its plus signs are blanks, since a plus sign of the text is encoded. So the pairs that were written
are read (`pairsOf_encodePairs`), and those that are added to a query stand behind its own
(`pairsOf_withPairs`).
-/

namespace Agents.Url

/-! ## Names and values -/

namespace Percent

/-- The text that a name or a value of a form stands for. -/
def decodeForm (s : List Char) : String :=
  Text.Utf8.decode (decode (s.map fun c => if c = '+' then ' ' else c))

def encodeFormChar (c : Char) : List Char :=
  if isPlainInForm c then [c] else if c = ' ' then ['+']
  else (String.utf8EncodeChar c).flatMap encodeByte

theorem encodeForm_eq (s : List Char) : encodeForm s = s.flatMap encodeFormChar := rfl

theorem plain_ne {c d : Char} (hc : isPlainInForm c = true) (hd : isPlainInForm d = false) :
    c ≠ d := by
  rintro rfl
  rw [hc] at hd
  cases hd

/-- A form is written with plain characters, plus signs and encoded bytes. -/
theorem mem_encodeForm {s : List Char} {c : Char} (h : c ∈ encodeForm s) :
    isPlainInForm c = true ∨ c = '+' ∨ c ∈ escapes := by
  rw [encodeForm_eq] at h
  obtain ⟨d, -, hd⟩ := List.mem_flatMap.mp h
  unfold encodeFormChar at hd
  split at hd
  · next hplain => exact .inl (List.mem_singleton.mp hd ▸ hplain)
  split at hd
  · exact .inr (.inl (List.mem_singleton.mp hd))
  · obtain ⟨b, -, hb⟩ := List.mem_flatMap.mp hd
    exact .inr (.inr (mem_escapes hb))

/-- Neither of the marks of a form is written in a name or a value. -/
theorem unmarked_of_mem_encodeForm {s : List Char} {c : Char} (h : c ∈ encodeForm s) :
    c ≠ '&' ∧ c ≠ '=' := by
  rcases mem_encodeForm h with hplain | rfl | hescape
  · exact ⟨plain_ne hplain rfl, plain_ne hplain rfl⟩
  · decide
  · have hescapes : ∀ c ∈ escapes, c ≠ '&' ∧ c ≠ '=' := Text.forall_mem (by decide)
    exact hescapes c hescape

/-- There is no plus sign in encoded bytes that would be taken for a blank. -/
theorem map_encodeBytes (bs : List UInt8) :
    (bs.flatMap encodeByte).map (fun c => if c = '+' then ' ' else c) = bs.flatMap encodeByte := by
  have hescapes : ∀ c ∈ escapes, c ≠ '+' := Text.forall_mem (by decide)
  refine (List.map_congr_left fun c hc => ?_).trans (List.map_id _)
  obtain ⟨b, -, hb⟩ := List.mem_flatMap.mp hc
  exact if_neg (hescapes c (mem_escapes hb))

theorem decode_encodeForm (s : List Char) :
    decode ((encodeForm s).map fun c => if c = '+' then ' ' else c) =
      s.flatMap String.utf8EncodeChar := by
  induction s with
  | nil => rfl
  | cons c rest ih =>
    rw [encodeForm_eq, List.flatMap_cons, ← encodeForm_eq, List.map_append, List.flatMap_cons, ← ih]
    unfold encodeFormChar
    split
    · next hplain =>
      rw [List.map_singleton, if_neg (plain_ne hplain rfl)]
      exact decode_cons (plain_ne hplain rfl) _
    split
    · next hblank =>
      subst hblank
      exact decode_cons (by decide) _
    · rw [map_encodeBytes]
      exact decode_encodeBytes _ _

theorem decodeForm_encodeForm (s : String) : decodeForm (encodeForm s.toList) = s := by
  rw [decodeForm, decode_encodeForm, Text.Utf8.decode_bytes, String.ofList_toList]

end Percent

/-! ## Pairs -/

/-- A piece of a query string: the name before its first equals sign, and the value after it. -/
def readPair (piece : List Char) : String × String :=
  let (name, value) := cut (· = '=') piece
  (Percent.decodeForm name, Percent.decodeForm (value.drop 1))

/-- The pairs of a query string. Pieces with nothing in them are passed over. -/
def pairsOf (query : String) : List (String × String) :=
  ((splitOn '&' query.toList).filter (· ≠ [])).map readPair

def writtenPair (pair : String × String) : List Char :=
  Percent.encodeForm pair.1.toList ++ '=' :: Percent.encodeForm pair.2.toList

theorem readPair_writtenPair (pair : String × String) : readPair (writtenPair pair) = pair := by
  have hcut : cut (· = '=') (writtenPair pair) =
      (Percent.encodeForm pair.1.toList, '=' :: Percent.encodeForm pair.2.toList) := by
    refine cut_append (fun c hc => decide_eq_false ?_) fun c hc => ?_
    · exact (Percent.unmarked_of_mem_encodeForm hc).2
    · exact decide_eq_true (Option.some.inj hc).symm
  unfold readPair
  rw [hcut]
  show (_, Percent.decodeForm (Percent.encodeForm pair.2.toList)) = pair
  rw [Percent.decodeForm_encodeForm, Percent.decodeForm_encodeForm]

theorem toList_encodePairs (pairs : List (String × String)) :
    (Percent.encodePairs pairs).toList = ['&'].intercalate (pairs.map writtenPair) := by
  have hmark : "&".toList = ['&'] := rfl
  rw [Percent.encodePairs, String.toList_intercalate, hmark, List.map_map]
  exact congrArg _ (List.map_congr_left fun pair _ => String.toList_ofList)

theorem pairsOf_encodePairs (pairs : List (String × String)) :
    pairsOf (Percent.encodePairs pairs) = pairs := by
  rw [pairsOf, toList_encodePairs]
  by_cases hnone : pairs = []
  · rw [hnone]
    rfl
  · have hpieces : ∀ piece ∈ pairs.map writtenPair, '&' ∉ piece := by
      intro piece hpiece hmark
      obtain ⟨pair, -, rfl⟩ := List.mem_map.mp hpiece
      rcases List.mem_append.mp hmark with hmark | hmark
      · exact (Percent.unmarked_of_mem_encodeForm hmark).1 rfl
      rcases List.mem_cons.mp hmark with hmark | hmark
      · cases hmark
      · exact (Percent.unmarked_of_mem_encodeForm hmark).1 rfl
    have hfilled : (pairs.map writtenPair).filter (· ≠ []) = pairs.map writtenPair := by
      refine List.filter_eq_self.mpr fun piece hpiece => ?_
      obtain ⟨pair, -, rfl⟩ := List.mem_map.mp hpiece
      exact decide_eq_true (List.append_ne_nil_of_right_ne_nil _ (List.cons_ne_nil _ _))
    rw [splitOn_intercalate hpieces (by simpa using hnone), hfilled, List.map_map]
    exact (List.map_congr_left fun pair _ => readPair_writtenPair pair).trans (List.map_id _)

theorem splitOn_append (mark : Char) (s t : List Char) :
    splitOn mark (s ++ mark :: t) = splitOn mark s ++ splitOn mark t := by
  induction s with
  | nil => exact if_pos rfl
  | cons c rest ih =>
    rw [List.cons_append, splitOn, splitOn, ih]
    split
    · rfl
    · have hne : splitOn mark rest ≠ [] := by
        rw [splitOn_eq]
        exact List.splitOn_ne_nil mark rest
      cases hpieces : splitOn mark rest with
      | nil => exact absurd hpieces hne
      | cons piece pieces => rfl

/-- The pairs on either side of an ampersand are read one after the other. -/
theorem pairsOf_append (s t : String) : pairsOf (s ++ "&" ++ t) = pairsOf s ++ pairsOf t := by
  have htext : (s ++ "&" ++ t).toList = s.toList ++ '&' :: t.toList := by simp
  rw [pairsOf, htext, splitOn_append, List.filter_append, List.map_append]
  rfl

/-- Pairs are added behind those of the query. -/
theorem pairsOf_withPairs (u : Url) (pairs : List (String × String)) :
    pairsOf ((u.withPairs pairs).query.getD "") = pairsOf (u.query.getD "") ++ pairs := by
  unfold withPairs
  split
  · next hnone => rw [hnone, List.append_nil]
  · dsimp only [Option.getD_some]
    cases u.query with
    | none =>
      rw [String.empty_append]
      exact pairsOf_encodePairs pairs
    | some query =>
      dsimp only [Option.getD_some]
      split
      · next hempty =>
        rw [hempty, String.empty_append]
        exact pairsOf_encodePairs pairs
      · rw [pairsOf_append, pairsOf_encodePairs]

end Agents.Url
