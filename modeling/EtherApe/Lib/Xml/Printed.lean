import EtherApe.Lib.Xml.Bytes

/-!
# Printed documents

A document that was printed as it is, except that a byte may have been lost on the way, as a doubled
`%` of a format is. It reads back as it was meant just when nothing was lost and everything in it is
clean.
-/

namespace Xml

variable {s t : Text} {rest : List UInt8}

/-! ### Prefixes -/

theorem exists_of_utf8_eq_char {c : Char} (h : utf8 t = String.utf8EncodeChar c ++ rest) :
    ∃ t', t = c :: t' ∧ utf8 t' = rest := by
  cases t with
  | nil =>
      have hnil : String.utf8EncodeChar c = [] := (List.append_eq_nil_iff.mp h.symm).1
      exact absurd hnil String.utf8EncodeChar_ne_nil
  | cons d t =>
      rw [utf8_cons] at h
      have hdecode : ∀ (e : Char) (l : List UInt8),
          ByteArray.utf8DecodeChar? (String.utf8EncodeChar e ++ l).toByteArray 0 = some e := by
        intro e l
        rw [List.toByteArray_append]
        exact ByteArray.utf8DecodeChar?_utf8EncodeChar_append
      have hd := hdecode d (utf8 t)
      rw [h, hdecode] at hd
      obtain rfl := Option.some.inj hd
      exact ⟨t, rfl, List.append_cancel_left h⟩

theorem exists_of_utf8_eq_append (h : utf8 t = utf8 s ++ rest) :
    ∃ t', t = s ++ t' ∧ utf8 t' = rest := by
  induction s generalizing t with
  | nil => exact ⟨t, rfl, h⟩
  | cons c s ih =>
      rw [utf8_cons, List.append_assoc] at h
      obtain ⟨t, rfl, ht⟩ := exists_of_utf8_eq_char h
      obtain ⟨t', rfl, ht'⟩ := ih ht
      exact ⟨t', rfl, ht'⟩

/-! ### Lost bytes -/

/-- `y` is `x` with some `%` left out. -/
inductive Drops : List UInt8 → List UInt8 → Prop
  | nil : Drops [] []
  | keep {x y : List UInt8} (b : UInt8) (h : Drops x y) : Drops (b :: x) (b :: y)
  | drop {x y : List UInt8} (h : Drops x y) : Drops (37 :: x) y

namespace Drops

variable {a x y x' y' : List UInt8}

theorem refl (x : List UInt8) : Drops x x := by
  induction x with
  | nil => exact .nil
  | cons b x ih => exact .keep b ih

theorem append (h : Drops x y) (h' : Drops x' y') : Drops (x ++ x') (y ++ y') := by
  induction h with
  | nil => exact h'
  | keep b _ ih => exact .keep b ih
  | drop _ ih => exact .drop ih

theorem length_le (h : Drops x y) : y.length ≤ x.length := by
  induction h with
  | nil => exact le_rfl
  | keep b _ ih => exact Nat.succ_le_succ ih
  | drop _ ih => exact Nat.le_succ_of_le ih

theorem exists_of_not_mem (ha : 37 ∉ a) (h : Drops (a ++ x) y) :
    ∃ y', y = a ++ y' ∧ Drops x y' := by
  induction a generalizing y with
  | nil => exact ⟨y, rfl, h⟩
  | cons b a ih =>
      cases h with
      | keep _ h =>
          obtain ⟨y', rfl, h'⟩ := ih (fun hmem => ha (List.mem_cons_of_mem _ hmem)) h
          exact ⟨y', rfl, h'⟩
      | drop h => exact absurd List.mem_cons_self ha

theorem shrinks {Loose : Char → Prop} (hpercent : Loose '%') (h : Drops (utf8 s) (utf8 t)) :
    Shrinks Loose s t := by
  have hencode : String.utf8EncodeChar '%' = [37] := rfl
  induction s generalizing t with
  | nil =>
      have hlen := h.length_le
      cases t with
      | nil => exact .nil
      | cons c t =>
          have hpos := List.length_pos_of_ne_nil (String.utf8EncodeChar_ne_nil (c := c))
          rw [utf8_cons, List.length_append, utf8_nil, List.length_nil] at hlen
          omega
  | cons c s ih =>
      rw [utf8_cons] at h
      by_cases hc : c = '%'
      · subst hc
        rw [hencode, List.singleton_append] at h
        generalize hbytes : utf8 t = bytes at h
        cases h with
        | keep _ h =>
            obtain ⟨t, rfl, rfl⟩ := exists_of_utf8_eq_char (c := '%') hbytes
            exact .keep _ (ih h)
        | drop h => exact .drop hpercent (ih (hbytes ▸ h))
      · have hnot : 37 ∉ String.utf8EncodeChar c := by
          intro hmem
          by_cases hlt : c.toNat < 128
          · rw [utf8EncodeChar_of_lt hlt, List.mem_singleton] at hmem
            have hval := congrArg UInt8.toNat hmem
            rw [UInt8.toNat_ofNat', Nat.mod_eq_of_lt (by omega)] at hval
            exact hc (Char.ext (UInt32.toNat_inj.mp hval.symm))
          · exact absurd (le_of_mem_utf8EncodeChar (not_lt.mp hlt) hmem) (by decide)
        obtain ⟨y', hbytes, h⟩ := exists_of_not_mem hnot h
        obtain ⟨t, rfl, rfl⟩ := exists_of_utf8_eq_char hbytes
        exact .keep _ (ih h)

end Drops

/-! ### Elements -/

theorem Content.of_str_append {α : Type} {bytes : List α} {rest : List (Event α)}
    (h : Content (bytes.map .char ++ rest)) : Content rest := by
  induction bytes with
  | nil => exact h
  | cons b bytes ih =>
      cases h with
      | char _ h => exact ih h

theorem eq_finish_of_encode {e : Event Char} {name : Text}
    (h : e.encode = [.finish (utf8 name)]) : e = .finish name := by
  cases e with
  | start name' attributes => cases h
  | char c => exact (isTag_of_encode (isTag_finish _) h).elim
  | finish name' => rw [utf8_injective (Event.finish.inj (List.singleton_inj.mp h))]

theorem eq_nil_of_encode {events : List (Event Char)} (h : encode events = []) : events = [] := by
  cases events with
  | nil => rfl
  | cons e events =>
      rw [encode_cons, List.append_eq_nil_iff] at h
      cases e with
      | start name attributes => cases h.1
      | finish name => cases h.1
      | char c => exact absurd (List.map_eq_nil_iff.mp h.1) String.utf8EncodeChar_ne_nil

/-- Tags that are balanced among bytes are so among characters. -/
theorem content_decode {events : List (Event Char)} (h : Content (encode events)) :
    Content events := by
  induction hlen : events.length using Nat.strong_induction_on generalizing events with
  | _ n ih =>
      cases events with
      | nil => exact .nil
      | cons e events =>
          rw [encode_cons] at h
          rw [List.length_cons] at hlen
          cases e with
          | char c => exact .char c (ih _ (by omega) h.of_str_append rfl)
          | finish name => cases h
          | start name attributes =>
              rw [Event.encode, List.singleton_append] at h
              generalize hinner : encode events = inner at h
              cases h with
              | element _ _ hbody hrest =>
                  obtain ⟨before, e', after, rfl, rfl, he', rfl⟩ :=
                    exists_of_encode_eq_append (isTag_finish _) hinner
                  rw [List.length_append, List.length_cons] at hlen
                  obtain rfl := eq_finish_of_encode he'
                  exact .element _ _ (ih _ (by omega) hbody rfl) (ih _ (by omega) hrest rfl)

theorem isElement_decode {events : List (Event Char)} (h : IsElement (encode events)) :
    IsElement events := by
  obtain ⟨name, attributes, body, hbody, hevents⟩ := h
  cases events with
  | nil => cases hevents
  | cons e events =>
      rw [encode_cons] at hevents
      cases e with
      | finish name' => cases hevents
      | char c =>
          cases hc : String.utf8EncodeChar c with
          | nil => exact absurd hc String.utf8EncodeChar_ne_nil
          | cons b bs =>
              rw [Event.encode, hc] at hevents
              cases hevents
      | start name' attributes' =>
          obtain ⟨hstart, hinner⟩ := List.cons.inj hevents
          obtain ⟨rfl, _⟩ := Event.start.inj hstart
          obtain ⟨before, e', after, rfl, rfl, he', hafter⟩ :=
            exists_of_encode_eq_append (isTag_finish _) hinner
          obtain rfl := eq_finish_of_encode he'
          obtain rfl := eq_nil_of_encode hafter
          exact ⟨name', attributes', before, content_decode hbody, rfl⟩

/-- What is printed reads back as the element it was meant to be, just when nothing was lost and the
element is clean. -/
theorem readsBytes_iff {comment : Text} (hcomment : (Token.comment comment).Valid)
    (hcomment' : '\r' ∉ comment) {events : List (Event UInt8)} (helement : IsElement events)
    {printed : List UInt8} (h : Drops (write events) printed) :
    ReadsBytes (utf8 (prologText comment) ++ printed) events ↔
      printed = write events ∧ Clean events := by
  constructor
  · rintro ⟨text, textEvents, htext, rfl, ⟨r⟩⟩
    obtain ⟨doc, rfl, rfl⟩ := exists_of_utf8_eq_append htext.symm
    rw [write_encode] at h ⊢
    have hshrinks : Shrinks (fun c => c = '\r' ∨ c = '%') (render textEvents) doc :=
      h.shrinks (Or.inr rfl)
    obtain ⟨rfl, hfaithful, hcdata⟩ := r.written (by
      rintro c (rfl | rfl) <;> decide) (Or.inl rfl) (by decide) hcomment hcomment' hshrinks
    exact ⟨rfl, textEvents, rfl, hfaithful, hcdata⟩
  · rintro ⟨rfl, textEvents, rfl, hfaithful, hcdata⟩
    refine ⟨prologText comment ++ render textEvents, textEvents, ?_, rfl,
      reads_of_faithful hcomment hcomment' (isElement_decode helement) hfaithful hcdata⟩
    rw [utf8_append, write_encode]

end Xml
