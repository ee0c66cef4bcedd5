import EtherApe.Lib.Xml.Written

/-!
# Documents as bytes

A document is a string of bytes in UTF-8, and so are the texts in it. What is written into a document is
a concatenation of tags, of fixed pieces of ASCII, and of texts that may hold any bytes; whether it can
be read back is decided piece by piece.
-/

namespace Xml

/-! ### UTF-8 -/

def utf8 (s : Text) : List UInt8 := s.flatMap String.utf8EncodeChar

@[simp] theorem utf8_nil : utf8 [] = [] := rfl

@[simp] theorem utf8_cons (c : Char) (s : Text) : utf8 (c :: s) = String.utf8EncodeChar c ++ utf8 s :=
  List.flatMap_cons

@[simp] theorem utf8_append (a b : Text) : utf8 (a ++ b) = utf8 a ++ utf8 b := List.flatMap_append

theorem utf8_injective {a b : Text} (h : utf8 a = utf8 b) : a = b := by
  have hencode : a.utf8Encode = b.utf8Encode := congrArg List.toByteArray h
  have hdecode := congrArg ByteArray.utf8Decode? hencode
  rw [List.utf8Decode?_utf8Encode, List.utf8Decode?_utf8Encode] at hdecode
  simpa using hdecode

theorem utf8EncodeChar_of_lt {c : Char} (h : c.toNat < 128) :
    String.utf8EncodeChar c = [UInt8.ofNat c.toNat] := if_pos (Nat.le_of_lt_succ h)

theorem le_of_mem_utf8EncodeChar {c : Char} (h : 128 ≤ c.toNat) {b : UInt8}
    (hb : b ∈ String.utf8EncodeChar c) : 128 ≤ b.toNat := by
  have hval : ¬c.val.toNat ≤ 0x7f := by
    change 128 ≤ c.val.toNat at h
    omega
  unfold String.utf8EncodeChar at hb
  simp only [if_neg hval] at hb
  split at hb
  · simp only [List.mem_cons, List.not_mem_nil, or_false] at hb
    rcases hb with rfl | rfl <;> rw [UInt8.toNat_ofNat'] <;> omega
  · split at hb
    · simp only [List.mem_cons, List.not_mem_nil, or_false] at hb
      rcases hb with rfl | rfl | rfl <;> rw [UInt8.toNat_ofNat'] <;> omega
    · simp only [List.mem_cons, List.not_mem_nil, or_false] at hb
      rcases hb with rfl | rfl | rfl | rfl <;> rw [UInt8.toNat_ofNat'] <;> omega

theorem utf8EncodeChar_eq_cons {c : Char} {b : UInt8} {bs : List UInt8} (hb : b.toNat < 128)
    (h : String.utf8EncodeChar c = b :: bs) : bs = [] ∧ c.toNat = b.toNat := by
  by_cases hc : c.toNat < 128
  · rw [utf8EncodeChar_of_lt hc] at h
    obtain ⟨rfl, rfl⟩ := List.cons.inj h
    refine ⟨rfl, ?_⟩
    rw [UInt8.toNat_ofNat']
    omega
  · have hle : 128 ≤ b.toNat :=
      le_of_mem_utf8EncodeChar (not_lt.mp hc) (by rw [h]; exact List.mem_cons_self)
    omega

/-! ### Events as bytes -/

def Event.encode : Event Char → List (Event UInt8)
  | .start name attributes => [.start (utf8 name) (attributes.map fun a => (utf8 a.1, utf8 a.2))]
  | .finish name => [.finish (utf8 name)]
  | .char c => (String.utf8EncodeChar c).map .char

def encode (events : List (Event Char)) : List (Event UInt8) := events.flatMap Event.encode

def Event.write : Event UInt8 → List UInt8
  | .start name _ => 60 :: name ++ [62]
  | .finish name => [60, 47] ++ name ++ [62]
  | .char b => [b]

def write (events : List (Event UInt8)) : List UInt8 := events.flatMap Event.write

/-- The document is well-formed, and `events` are read from it. -/
def ReadsBytes (doc : List UInt8) (events : List (Event UInt8)) : Prop :=
  ∃ text textEvents, doc = utf8 text ∧ encode textEvents = events ∧ Reads text textEvents

def str (bytes : List UInt8) : List (Event UInt8) := bytes.map .char

def tag (name : List UInt8) (body : List (Event UInt8)) : List (Event UInt8) :=
  .start name [] :: body ++ [.finish name]

@[simp] theorem encode_nil : encode [] = [] := rfl

@[simp] theorem encode_cons (e : Event Char) (events : List (Event Char)) :
    encode (e :: events) = e.encode ++ encode events := List.flatMap_cons

@[simp] theorem encode_append (a b : List (Event Char)) : encode (a ++ b) = encode a ++ encode b :=
  List.flatMap_append

@[simp] theorem encode_chars (s : Text) : encode (s.map .char) = str (utf8 s) := by
  induction s with
  | nil => rfl
  | cons c s ih => simp [ih, Event.encode, str]

@[simp] theorem write_nil : write [] = [] := rfl

@[simp] theorem write_append (a b : List (Event UInt8)) : write (a ++ b) = write a ++ write b :=
  List.flatMap_append

@[simp] theorem write_str (bytes : List UInt8) : write (str bytes) = bytes := by
  induction bytes with
  | nil => rfl
  | cons b bytes ih =>
      change [b] ++ write (str bytes) = b :: bytes
      rw [ih]
      rfl

@[simp] theorem write_flatMap {β : Type*} (l : List β) (f : β → List (Event UInt8)) :
    write (l.flatMap f) = l.flatMap fun x => write (f x) := List.flatMap_assoc

theorem write_tag (name : List UInt8) (body : List (Event UInt8)) :
    write (tag name body) = 60 :: name ++ 62 :: write body ++ [60, 47] ++ name ++ [62] := by
  simp [write, tag, Event.write]

theorem write_encode (events : List (Event Char)) : write (encode events) = utf8 (render events) := by
  have hlt : String.utf8EncodeChar '<' = [60] := rfl
  have hgt : String.utf8EncodeChar '>' = [62] := rfl
  have hslash : String.utf8EncodeChar '/' = [47] := rfl
  induction events with
  | nil => rfl
  | cons e events ih =>
      rw [encode_cons, write_append, ih, render_cons, utf8_append]
      congr 1
      cases e with
      | start name attributes => simp [Event.encode, Event.render, write, Event.write, hlt, hgt]
      | finish name => simp [Event.encode, Event.render, write, Event.write, hlt, hgt, hslash]
      | char c =>
          rw [Event.encode, Event.render, utf8_cons, utf8_nil, List.append_nil]
          exact write_str _

theorem Content.append {α : Type} {a b : List (Event α)} (ha : Content a) (hb : Content b) :
    Content (a ++ b) := by
  induction ha with
  | nil => exact hb
  | char c _ ih => exact .char c ih
  | element name attributes hbody _ _ ih =>
      rw [List.append_assoc, List.cons_append]
      exact .element name attributes hbody ih

theorem content_str (bytes : List UInt8) : Content (str bytes) := by
  induction bytes with
  | nil => exact .nil
  | cons b bytes ih => exact .char b ih

theorem content_tag {name : List UInt8} {body : List (Event UInt8)} (h : Content body) :
    Content (tag name body) := .element name [] h .nil

theorem content_flatMap {β : Type*} {l : List β} {f : β → List (Event UInt8)}
    (h : ∀ x ∈ l, Content (f x)) : Content (l.flatMap f) := by
  induction l with
  | nil => exact .nil
  | cons x l ih =>
      rw [List.flatMap_cons]
      exact (h x List.mem_cons_self).append (ih fun y hy => h y (List.mem_cons_of_mem _ hy))

/-! ### Pieces -/

/-- A tag among bytes, which is the image of a tag. -/
def Event.IsTag {α : Type} : Event α → Prop
  | .start _ _ => True
  | .finish _ => True
  | .char _ => False

theorem isTag_start {α : Type} (name : List α) (attributes : List (List α × List α)) :
    (Event.start name attributes).IsTag := trivial

theorem isTag_finish {α : Type} (name : List α) : (Event.finish name).IsTag := trivial

theorem encode_eq_of_isTag {e₀ : Event Char} {e : Event UInt8} {a c : List (Event UInt8)}
    (he : e.IsTag) (h : e₀.encode = a ++ e :: c) : a = [] ∧ c = [] ∧ e₀.encode = [e] := by
  cases e₀ with
  | start name attributes =>
      obtain ⟨ha, he, hc⟩ : a = [] ∧ e = Event.start _ _ ∧ c = [] := by
        simpa [Event.encode, List.singleton_eq_append_iff] using h
      exact ⟨ha, hc, by rw [he]; rfl⟩
  | finish name =>
      obtain ⟨ha, he, hc⟩ : a = [] ∧ e = Event.finish _ ∧ c = [] := by
        simpa [Event.encode, List.singleton_eq_append_iff] using h
      exact ⟨ha, hc, by rw [he]; rfl⟩
  | char d =>
      have hmem : e ∈ (String.utf8EncodeChar d).map .char := by
        change e ∈ (Event.char d).encode
        rw [h]
        simp
      obtain ⟨b, _, rfl⟩ := List.mem_map.mp hmem
      exact he.elim

/-- Encoding can be undone on both sides of a tag. -/
theorem exists_of_encode_eq_append {events : List (Event Char)} {a b : List (Event UInt8)}
    {e : Event UInt8} (he : e.IsTag) (h : encode events = a ++ e :: b) :
    ∃ before e' after, events = before ++ e' :: after ∧ encode before = a ∧ e'.encode = [e] ∧
      encode after = b := by
  induction events generalizing a with
  | nil => simp at h
  | cons e₀ events ih =>
      rw [encode_cons] at h
      rcases List.append_eq_append_iff.mp h with ⟨a', rfl, h'⟩ | ⟨c, hc, h'⟩
      · obtain ⟨before, e', after, rfl, rfl, he', hafter⟩ := ih h'
        exact ⟨e₀ :: before, e', after, rfl, encode_cons _ _, he', hafter⟩
      · cases c with
        | nil =>
            rw [List.append_nil] at hc
            obtain ⟨before, e', after, rfl, hbefore, he', hafter⟩ := ih (a := []) h'.symm
            refine ⟨e₀ :: before, e', after, rfl, ?_, he', hafter⟩
            rw [encode_cons, hbefore, hc, List.append_nil]
        | cons x c =>
            obtain ⟨rfl, rfl⟩ := List.cons.inj h'
            obtain ⟨rfl, rfl, he₀⟩ := encode_eq_of_isTag he hc
            exact ⟨[], e₀, events, rfl, rfl, he₀, rfl⟩

/-- Events that can be read back when they are written as they are. -/
def Clean (events : List (Event UInt8)) : Prop :=
  ∃ textEvents, encode textEvents = events ∧ (∀ e ∈ textEvents, e.Faithful) ∧
    NoCdataEnd textEvents

def CleanName (name : List UInt8) : Prop := ∃ s, utf8 s = name ∧ IsName s

/-- A text in UTF-8 that can be read back when it is written as it is. -/
def CleanText (bytes : List UInt8) : Prop :=
  ∃ s, utf8 s = bytes ∧ (∀ c ∈ s, Plain c) ∧ ¬[']', ']', '>'] <:+: s

def CleanTag : Event UInt8 → Prop
  | .start name attributes => CleanName name ∧ attributes = []
  | .finish name => CleanName name
  | .char _ => False

theorem infix_of_not_mem {α : Type} {l a b : List α} {e : α} (he : e ∉ l)
    (h : l <:+: a ++ e :: b) : l <:+: a ∨ l <:+: b := by
  obtain ⟨x, y, h⟩ := h
  rw [List.append_assoc] at h
  rcases List.append_eq_append_iff.mp h with ⟨a', rfl, h'⟩ | ⟨c, rfl, h'⟩
  · rcases List.append_eq_append_iff.mp h' with ⟨d, rfl, _⟩ | ⟨d, rfl, h''⟩
    · exact Or.inl ⟨x, d, by simp⟩
    · cases d with
      | nil => exact Or.inl ⟨x, [], by simp⟩
      | cons z d =>
          obtain ⟨rfl, _⟩ := List.cons.inj h''
          exact absurd (by simp) he
  · cases c with
    | nil =>
        cases l with
        | nil => exact Or.inl (List.nil_infix)
        | cons z l =>
            obtain ⟨rfl, _⟩ := List.cons.inj h'
            exact absurd List.mem_cons_self he
    | cons z c =>
        obtain ⟨_, rfl⟩ := List.cons.inj h'
        exact Or.inr ⟨c, y, by simp⟩

theorem NoCdataEnd.of_infix {a b : List (Event Char)} (h : NoCdataEnd b) (hab : a <:+: b) :
    NoCdataEnd a := fun hinside => h (hinside.trans hab)

theorem NoCdataEnd.append_tag {a b : List (Event Char)} {e : Event Char} (he : e.IsTag)
    (ha : NoCdataEnd a) (hb : NoCdataEnd b) : NoCdataEnd (a ++ e :: b) := by
  have hnot : e ∉ [Event.char ']', Event.char ']', Event.char '>'] := by
    intro hmem
    simp only [List.mem_cons, List.not_mem_nil, or_false] at hmem
    rcases hmem with rfl | rfl | rfl <;> exact he
  exact fun hinside => (infix_of_not_mem hnot hinside).elim ha hb

theorem NoCdataEnd.cons_char {events : List (Event Char)} {c : Char} (hc : c ≠ ']')
    (h : NoCdataEnd events) : NoCdataEnd (.char c :: events) := by
  intro hinside
  rcases List.infix_cons_iff.mp hinside with hbegins | hinside
  · obtain ⟨rest, hrest⟩ := hbegins
    obtain ⟨hfirst, _⟩ := List.cons.inj hrest
    cases hfirst
    exact hc rfl
  · exact h hinside

theorem noCdataEnd_nil : NoCdataEnd [] := by
  simp [NoCdataEnd]

theorem noCdataEnd_chars {s : Text} :
    NoCdataEnd (s.map .char) ↔ ¬[']', ']', '>'] <:+: s := by
  refine not_congr ⟨fun hinside => ?_, fun hinside => hinside.map Event.char⟩
  obtain ⟨l, hl, hmap⟩ := List.infix_map_iff.mp hinside
  have hinjective : Function.Injective (Event.char : Char → Event Char) :=
    fun _ _ h => Event.char.inj h
  have hsame : l = [']', ']', '>'] := (List.map_injective_iff.mpr hinjective) hmap.symm
  rwa [hsame] at hl

theorem isTag_of_encode {e : Event Char} {e' : Event UInt8} (he' : e'.IsTag)
    (h : e.encode = [e']) : e.IsTag := by
  cases e with
  | start name attributes => trivial
  | finish name => trivial
  | char c =>
      have hmem : e' ∈ (String.utf8EncodeChar c).map .char := by
        change e' ∈ (Event.char c).encode
        rw [h]
        exact List.mem_singleton_self _
      obtain ⟨b, _, rfl⟩ := List.mem_map.mp hmem
      exact he'.elim

theorem cleanTag_iff {e : Event UInt8} (he : e.IsTag) :
    CleanTag e ↔ ∃ e', Event.encode e' = [e] ∧ e'.Faithful := by
  constructor
  · intro h
    cases e with
    | start name attributes =>
        obtain ⟨⟨s, rfl, hs⟩, rfl⟩ := h
        exact ⟨.start s [], rfl, hs, rfl⟩
    | finish name =>
        obtain ⟨s, rfl, hs⟩ := h
        exact ⟨.finish s, rfl, hs⟩
    | char b => exact he.elim
  · rintro ⟨e', hencode, hfaithful⟩
    have htag := isTag_of_encode he hencode
    cases e' with
    | start name attributes =>
        obtain rfl := List.singleton_inj.mp hencode
        exact ⟨⟨name, rfl, hfaithful.1⟩, by rw [hfaithful.2]; rfl⟩
    | finish name =>
        obtain rfl := List.singleton_inj.mp hencode
        exact ⟨name, rfl, hfaithful⟩
    | char c => exact htag.elim

/-- A tag divides what is to be read back. -/
theorem clean_append_tag {a b : List (Event UInt8)} {e : Event UInt8} (he : e.IsTag) :
    Clean (a ++ e :: b) ↔ Clean a ∧ CleanTag e ∧ Clean b := by
  constructor
  · rintro ⟨events, hencode, hfaithful, hcdata⟩
    obtain ⟨before, e', after, rfl, rfl, he', rfl⟩ := exists_of_encode_eq_append he hencode
    refine ⟨⟨before, rfl, fun x hx => hfaithful x (by simp [hx]), ?_⟩,
      (cleanTag_iff he).mpr ⟨e', he', hfaithful e' (by simp)⟩,
      ⟨after, rfl, fun x hx => hfaithful x (by simp [hx]), ?_⟩⟩
    · exact hcdata.of_infix (List.prefix_append _ _).isInfix
    · exact hcdata.of_infix ⟨before ++ [e'], [], by simp⟩
  · rintro ⟨⟨before, rfl, hbefore, hbefore'⟩, htag, ⟨after, rfl, hafter, hafter'⟩⟩
    obtain ⟨e', he', hfaithful⟩ := (cleanTag_iff he).mp htag
    refine ⟨before ++ e' :: after, by simp [he'], fun x hx => ?_,
      hbefore'.append_tag (isTag_of_encode he he') hafter'⟩
    rcases List.mem_append.mp hx with hx | hx
    · exact hbefore x hx
    · rcases List.mem_cons.mp hx with rfl | hx
      · exact hfaithful
      · exact hafter x hx

theorem clean_nil : Clean [] := ⟨[], rfl, by simp, noCdataEnd_nil⟩

theorem exists_text_of_encode_eq_str {events : List (Event Char)} {bytes : List UInt8}
    (h : encode events = str bytes) : ∃ s, events = s.map .char ∧ utf8 s = bytes := by
  induction events generalizing bytes with
  | nil => exact ⟨[], rfl, (List.map_eq_nil_iff.mp h.symm).symm⟩
  | cons e events ih =>
      obtain ⟨front, back, rfl, hfront, hback⟩ := List.map_eq_append_iff.mp h.symm
      obtain ⟨s, rfl, rfl⟩ := ih hback.symm
      have hnot : ∀ e' : Event UInt8, e'.IsTag → e.encode ≠ [e'] := by
        intro e' he' heq
        have hmem : e' ∈ front.map Event.char := by
          rw [hfront, heq]
          exact List.mem_singleton_self _
        obtain ⟨b, _, rfl⟩ := List.mem_map.mp hmem
        exact he'
      cases e with
      | start name attributes => exact absurd rfl (hnot _ trivial)
      | finish name => exact absurd rfl (hnot _ trivial)
      | char c =>
          have hinjective : Function.Injective (Event.char : UInt8 → Event UInt8) :=
            fun _ _ heq => Event.char.inj heq
          have hbytes : front = String.utf8EncodeChar c := (List.map_injective_iff.mpr hinjective) hfront
          exact ⟨c :: s, rfl, by rw [hbytes, utf8_cons]⟩

@[simp] theorem clean_str {bytes : List UInt8} : Clean (str bytes) ↔ CleanText bytes := by
  constructor
  · rintro ⟨events, hencode, hfaithful, hcdata⟩
    obtain ⟨s, rfl, rfl⟩ := exists_text_of_encode_eq_str hencode
    refine ⟨s, rfl, fun c hc => ?_, noCdataEnd_chars.mp hcdata⟩
    exact hfaithful (.char c) (List.mem_map_of_mem hc)
  · rintro ⟨s, rfl, hplain, hcdata⟩
    refine ⟨s.map .char, encode_chars s, fun e he => ?_, noCdataEnd_chars.mpr hcdata⟩
    obtain ⟨c, hc, rfl⟩ := List.mem_map.mp he
    exact hplain c hc

@[simp] theorem clean_tag_append {name : List UInt8} {body rest : List (Event UInt8)} :
    Clean (tag name body ++ rest) ↔ CleanName name ∧ Clean body ∧ Clean rest := by
  have hsplit : tag name body ++ rest =
      [] ++ .start name [] :: (body ++ .finish name :: rest) := by simp [tag]
  rw [hsplit, clean_append_tag (isTag_start _ _), clean_append_tag (isTag_finish _)]
  simp only [clean_nil, true_and, CleanTag, and_true]
  tauto

@[simp] theorem clean_tag {name : List UInt8} {body : List (Event UInt8)} :
    Clean (tag name body) ↔ CleanName name ∧ Clean body := by
  have h := @clean_tag_append name body []
  simpa only [List.append_nil, clean_nil, and_true] using h

/-! ### Fixed pieces -/

/-- A printing character or a newline that means no markup and ends no section. -/
def Safe (b : UInt8) : Prop :=
  b = 10 ∨ 32 ≤ b.toNat ∧ b.toNat < 127 ∧ b ≠ 60 ∧ b ≠ 38 ∧ b ≠ 93

instance (b : UInt8) : Decidable (Safe b) := inferInstanceAs (Decidable (_ ∨ _ ∧ _ ∧ _ ∧ _ ∧ _))

theorem Safe.lt {b : UInt8} (h : Safe b) : b.toNat < 128 := by
  rcases h with rfl | ⟨_, hlt, _⟩
  · decide
  · omega

theorem exists_char_of_encode_eq_cons {events : List (Event Char)} {b : UInt8}
    {rest : List (Event UInt8)} (hb : b.toNat < 128) (h : encode events = .char b :: rest) :
    ∃ c events', events = .char c :: events' ∧ c.toNat = b.toNat ∧ encode events' = rest := by
  cases events with
  | nil => exact absurd h (by simp)
  | cons e events =>
      rw [encode_cons] at h
      cases e with
      | start name attributes => exact absurd (List.cons.inj h).1 (by simp)
      | finish name => exact absurd (List.cons.inj h).1 (by simp)
      | char c =>
          cases hc : String.utf8EncodeChar c with
          | nil => exact absurd hc String.utf8EncodeChar_ne_nil
          | cons d bs =>
              rw [Event.encode, hc] at h
              obtain ⟨hd, hrest⟩ := List.cons.inj h
              obtain rfl := Event.char.inj hd
              obtain ⟨rfl, hval⟩ := utf8EncodeChar_eq_cons hb hc
              exact ⟨c, events, rfl, hval, hrest⟩

theorem Safe.plain {b : UInt8} {c : Char} (hb : Safe b) (hc : c.toNat = b.toNat) :
    Plain c ∧ c ≠ ']' := by
  have hne : ∀ (d : Char) (e : UInt8), d.toNat = e.toNat → b ≠ e → c ≠ d := by
    rintro d e hde hbe rfl
    exact hbe (UInt8.toNat_inj.mp (hc.symm.trans hde))
  rcases hb with rfl | ⟨hle, hlt, hlt', hamp, hbracket⟩
  · obtain rfl : c = '\n' := Char.ext (UInt32.toNat_inj.mp hc)
    decide
  · have hprint : c ≠ '\r' := by
      rintro rfl
      change 13 = b.toNat at hc
      omega
    refine ⟨⟨?_, hne '<' 60 rfl hlt', hne '&' 38 rfl hamp, hprint⟩, hne ']' 93 rfl hbracket⟩
    exact Or.inr (Or.inr (Or.inr (by omega)))

theorem clean_char_cons {b : UInt8} {rest : List (Event UInt8)} (hb : Safe b) :
    Clean (.char b :: rest) ↔ Clean rest := by
  constructor
  · rintro ⟨events, hencode, hfaithful, hcdata⟩
    obtain ⟨c, events, rfl, _, rfl⟩ := exists_char_of_encode_eq_cons hb.lt hencode
    exact ⟨events, rfl, fun e he => hfaithful e (List.mem_cons_of_mem _ he),
      hcdata.of_infix (List.suffix_cons _ _).isInfix⟩
  · rintro ⟨events, rfl, hfaithful, hcdata⟩
    have hval : (Char.ofNat b.toNat).toNat = b.toNat := by
      have hlt := hb.lt
      rw [Char.ofNat, dif_pos (Or.inl (by omega))]
      rfl
    obtain ⟨hplain, hbracket⟩ := hb.plain hval
    refine ⟨.char (Char.ofNat b.toNat) :: events, ?_, ?_, hcdata.cons_char hbracket⟩
    · rw [encode_cons, Event.encode, utf8EncodeChar_of_lt (by rw [hval]; exact hb.lt), hval,
        UInt8.ofNat_toNat]
      rfl
    · exact List.forall_mem_cons.mpr ⟨hplain, hfaithful⟩

theorem clean_str_append {bytes : List UInt8} {rest : List (Event UInt8)}
    (h : ∀ b ∈ bytes, Safe b) : Clean (str bytes ++ rest) ↔ Clean rest := by
  induction bytes with
  | nil => rfl
  | cons b bytes ih =>
      obtain ⟨hb, hbytes⟩ := List.forall_mem_cons.mp h
      change Clean (.char b :: (str bytes ++ rest)) ↔ Clean rest
      rw [clean_char_cons hb, ih hbytes]

theorem cleanText_of_safe {bytes : List UInt8} (h : ∀ b ∈ bytes, Safe b) : CleanText bytes := by
  have hclean := @clean_str_append bytes [] h
  rwa [List.append_nil, clean_str, iff_true_right clean_nil] at hclean

/-- Events that are read back apart from what follows them. -/
def Closed (events : List (Event UInt8)) : Prop :=
  ∀ rest, Clean (events ++ rest) ↔ Clean events ∧ Clean rest

theorem closed_tag (name : List UInt8) (body : List (Event UInt8)) : Closed (tag name body) := by
  intro rest
  rw [clean_tag_append, clean_tag, and_assoc]

theorem closed_str {bytes : List UInt8} (h : ∀ b ∈ bytes, Safe b) : Closed (str bytes) := by
  intro rest
  rw [clean_str_append h, clean_str, and_iff_right (cleanText_of_safe h)]

theorem Closed.append {a b : List (Event UInt8)} (ha : Closed a) (hb : Closed b) :
    Closed (a ++ b) := by
  intro rest
  rw [List.append_assoc, ha, hb, ha, and_assoc]

theorem closed_nil : Closed [] := by
  intro rest
  rw [List.nil_append, and_iff_right clean_nil]

section FlatMap

variable {β : Type*} {l : List β} {f : β → List (Event UInt8)}

theorem closed_flatMap (h : ∀ x ∈ l, Closed (f x)) : Closed (l.flatMap f) := by
  induction l with
  | nil => exact closed_nil
  | cons x l ih =>
      rw [List.flatMap_cons]
      exact (h x List.mem_cons_self).append (ih fun y hy => h y (List.mem_cons_of_mem _ hy))

theorem clean_flatMap (h : ∀ x ∈ l, Closed (f x)) :
    Clean (l.flatMap f) ↔ ∀ x ∈ l, Clean (f x) := by
  induction l with
  | nil => simp [clean_nil]
  | cons x l ih =>
      rw [List.flatMap_cons, h x List.mem_cons_self, ih fun y hy => h y (List.mem_cons_of_mem _ hy),
        List.forall_mem_cons]

end FlatMap

end Xml
