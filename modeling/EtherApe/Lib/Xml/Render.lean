import EtherApe.Lib.Xml

/-!
# Documents written without escaping

Tags and characters that are written down as they are can be read back in no other way than one token
for each: a token spells at least as many slashes and semicolons as what is read from it, so none is
spent otherwise, an end tag is where it was written, and no token may be longer than what it stands for.
-/

namespace Xml

variable {c : Char} {cs x y : Text} {t : Token} {ts : List Token} {events : List (Event Char)}

/-! ### Writing -/

def Event.render : Event Char → Text
  | .start name _ => '<' :: name ++ ['>']
  | .finish name => ['<', '/'] ++ name ++ ['>']
  | .char c => [c]

def render (events : List (Event Char)) : Text := events.flatMap Event.render

@[simp] theorem render_nil : render [] = [] := rfl

@[simp] theorem render_cons (e : Event Char) (events : List (Event Char)) :
    render (e :: events) = e.render ++ render events := List.flatMap_cons

@[simp] theorem render_append (a b : List (Event Char)) : render (a ++ b) = render a ++ render b :=
  List.flatMap_append

@[simp] theorem render_chars (s : Text) : render (s.map .char) = s := by
  induction s with
  | nil => rfl
  | cons c s ih => simp [ih, Event.render]

@[simp] theorem spell_cons (t : Token) (ts : List Token) : spell (t :: ts) = t.spelling ++ spell ts :=
  List.flatMap_cons

@[simp] theorem spell_append (a b : List Token) : spell (a ++ b) = spell a ++ spell b :=
  List.flatMap_append

/-- A character that is read as itself. -/
def Plain (c : Char) : Prop := IsChar c ∧ c ≠ '<' ∧ c ≠ '&' ∧ c ≠ '\r'

instance (c : Char) : Decidable (Plain c) := inferInstanceAs (Decidable (_ ∧ _ ∧ _ ∧ _))

/-- Events that are read back when they are written as they are. -/
def Event.Faithful : Event Char → Prop
  | .start name attributes => IsName name ∧ attributes = []
  | .finish name => IsName name
  | .char c => Plain c

/-! ### Names -/

theorem not_isNameChar (h : c ∈ [' ', '\t', '\n', '\r', '/', ';', '>', '<', '?', '!', '=', '%']) :
    ¬IsNameChar c := by
  simp only [List.mem_cons, List.not_mem_nil, or_false] at h
  rcases h with rfl | rfl | rfl | rfl | rfl | rfl | rfl | rfl | rfl | rfl | rfl | rfl <;> decide

theorem not_isNameChar_of_isSpace (h : IsSpace c) : ¬IsNameChar c := by
  rcases h with rfl | rfl | rfl | rfl <;> decide

theorem IsName.isNameChar {name : Text} (h : IsName name) : ∀ c ∈ name, IsNameChar c := by
  cases name with
  | nil => exact h.elim
  | cons c cs => exact List.forall_mem_cons.mpr ⟨Or.inl h.1, h.2⟩

/-- Two ways to cut a text behind its first characters that meet `P` are one. -/
theorem spans_eq {P : Char → Prop} {a b : Text} {d : Char} (ha : ∀ x ∈ a, P x) (hb : ∀ x ∈ b, P x)
    (hc : ¬P c) (hd : ¬P d) (h : a ++ c :: x = b ++ d :: y) : a = b ∧ x = y := by
  induction a generalizing b with
  | nil =>
      cases b with
      | nil => exact ⟨rfl, (List.cons.inj h).2⟩
      | cons e b =>
          obtain ⟨rfl, _⟩ := List.cons.inj h
          exact absurd (hb c (by simp)) hc
  | cons e a ih =>
      cases b with
      | nil =>
          obtain ⟨rfl, _⟩ := List.cons.inj h
          exact absurd (ha e (by simp)) hd
      | cons f b =>
          obtain ⟨rfl, htail⟩ := List.cons.inj h
          obtain ⟨rfl, hrest⟩ :=
            ih (fun x hx => ha x (by simp [hx])) (fun x hx => hb x (by simp [hx])) htail
          exact ⟨rfl, hrest⟩

/-! ### Weights -/

/-- Slashes and semicolons, of which every end of an element and every reference has one. -/
def Heavy (c : Char) : Prop := c = '/' ∨ c = ';'

instance (c : Char) : Decidable (Heavy c) := inferInstanceAs (Decidable (_ ∨ _))

def weight (cs : Text) : Nat := cs.countP fun c => decide (Heavy c)

@[simp] theorem weight_nil : weight [] = 0 := rfl

@[simp] theorem weight_append (a b : Text) : weight (a ++ b) = weight a + weight b :=
  List.countP_append

theorem weight_cons (c : Char) (cs : Text) :
    weight (c :: cs) = (if Heavy c then 1 else 0) + weight cs := by
  rw [weight, List.countP_cons]
  by_cases h : Heavy c
  · simp [h, weight, Nat.add_comm]
  · simp [h, weight]

theorem weight_singleton_le (c : Char) : weight [c] ≤ 1 := by
  rw [weight_cons]
  split <;> simp

theorem weight_eq_zero (h : ∀ c ∈ cs, IsNameChar c) : weight cs = 0 := by
  rw [weight, List.countP_eq_zero]
  intro c hc hheavy
  rcases of_decide_eq_true hheavy with rfl | rfl
  · exact not_isNameChar (by simp) (h _ hc)
  · exact not_isNameChar (by simp) (h _ hc)

theorem weight_events_le (ht : t.Valid) : weight (render t.events) ≤ weight t.spelling := by
  cases t with
  | char c => simp [Token.events, Token.spelling, Event.render]
  | reference body c =>
      have hc := weight_singleton_le c
      simp [Token.events, Token.spelling, Event.render, weight_cons _ (body ++ _),
        weight_cons ';', Heavy]
      omega
  | cdata content =>
      simp [Token.events, Token.spelling, weight_cons]
      omega
  | comment content => simp [Token.events]
  | instruction target content => simp [Token.events]
  | startTag name attributes space =>
      simp [Token.events, Token.spelling, Event.render, weight_cons]
      omega
  | endTag name space => simp [Token.events, Token.spelling, Event.render, weight_cons]
  | emptyTag name attributes space =>
      have hname : weight name = 0 := weight_eq_zero ht.1.isNameChar
      simp [Token.events, Token.spelling, Event.render, weight_cons, hname, Heavy]
      omega

theorem weight_render_le (hts : ∀ t ∈ ts, t.Valid) :
    weight (render (ts.flatMap Token.events)) ≤ weight (spell ts) := by
  induction ts with
  | nil => simp
  | cons t ts ih =>
      obtain ⟨ht, hts⟩ := List.forall_mem_cons.mp hts
      have hhead := weight_events_le ht
      have htail := ih hts
      simp only [List.flatMap_cons, render_append, spell_cons, weight_append]
      omega

/-! ### What printing and reading may lose -/

/-- `y` is `x` with some loose characters left out, and some carriage returns read as newlines. -/
inductive Shrinks (Loose : Char → Prop) : Text → Text → Prop
  | nil : Shrinks Loose [] []
  | keep {x y : Text} (c : Char) (h : Shrinks Loose x y) : Shrinks Loose (c :: x) (c :: y)
  | drop {x y : Text} {c : Char} (hc : Loose c) (h : Shrinks Loose x y) : Shrinks Loose (c :: x) y
  | newline {x y : Text} (h : Shrinks Loose x y) : Shrinks Loose ('\r' :: x) ('\n' :: y)

namespace Shrinks

variable {Loose : Char → Prop}

theorem length_le (h : Shrinks Loose x y) : y.length ≤ x.length := by
  induction h with
  | nil => exact le_rfl
  | keep c _ ih => exact Nat.succ_le_succ ih
  | drop _ _ ih => exact Nat.le_succ_of_le ih
  | newline _ ih => exact Nat.succ_le_succ ih

theorem eq_of_length (h : Shrinks Loose x y) (hlen : x.length ≤ y.length) (hcr : '\r' ∉ x) :
    y = x := by
  induction h with
  | nil => rfl
  | keep c _ ih =>
      rw [ih (Nat.le_of_succ_le_succ hlen) fun hmem => hcr (List.mem_cons_of_mem _ hmem)]
  | drop _ h _ => exact absurd (h.length_le.trans_lt hlen) (lt_irrefl _)
  | newline _ _ => exact absurd List.mem_cons_self hcr

theorem trans {z : Text} (hcr : Loose '\r') (h : Shrinks Loose x y) (h' : Shrinks Loose y z) :
    Shrinks Loose x z := by
  induction h generalizing z with
  | nil => exact h'
  | keep c _ ih =>
      cases h' with
      | keep _ h' => exact .keep c (ih h')
      | drop hc h' => exact .drop hc (ih h')
      | newline h' => exact .newline (ih h')
  | drop hc _ ih => exact .drop hc (ih h')
  | newline _ ih =>
      cases h' with
      | keep _ h' => exact .newline (ih h')
      | drop _ h' => exact .drop hcr (ih h')

theorem normalizeLines (hcr : Loose '\r') (x : Text) : Shrinks Loose x (normalizeLines x) := by
  fun_induction Xml.normalizeLines x with
  | case1 => exact .nil
  | case2 cs ih => exact .drop hcr (.keep _ ih)
  | case3 c cs _ ih =>
      split
      next hc =>
        rw [hc]
        exact .newline ih
      next => exact .keep c ih

section Weight

variable (hLoose : ∀ c, Loose c → ¬Heavy c)

include hLoose

theorem weight_eq (h : Shrinks Loose x y) : weight y = weight x := by
  induction h with
  | nil => rfl
  | keep c _ ih => rw [weight_cons, weight_cons, ih]
  | drop hc _ ih => rw [weight_cons, if_neg (hLoose _ hc), ih, Nat.zero_add]
  | newline _ ih =>
      rw [weight_cons, weight_cons, ih, if_neg (by decide), if_neg (by decide)]

/-- The heavy characters correspond, and so does what follows them. -/
theorem after_heavy (h : Shrinks Loose x y) {a b x' y' : Text} {c d : Char} (hc : Heavy c)
    (hd : Heavy d) (hx : x = a ++ c :: x') (hy : y = b ++ d :: y') (hweight : weight a = weight b) :
    Shrinks Loose x' y' := by
  induction h generalizing a b with
  | nil => simp at hx
  | @keep x y e h ih =>
      cases a with
      | nil =>
          obtain ⟨rfl, rfl⟩ := List.cons.inj hx
          cases b with
          | nil =>
              obtain ⟨_, rfl⟩ := List.cons.inj hy
              exact h
          | cons f b =>
              obtain ⟨rfl, rfl⟩ := List.cons.inj hy
              rw [weight_cons, if_pos hc] at hweight
              simp at hweight
              omega
      | cons f a =>
          obtain ⟨rfl, rfl⟩ := List.cons.inj hx
          cases b with
          | nil =>
              obtain ⟨rfl, rfl⟩ := List.cons.inj hy
              rw [weight_cons, if_pos hd] at hweight
              simp at hweight
          | cons g b =>
              obtain ⟨rfl, rfl⟩ := List.cons.inj hy
              rw [weight_cons, weight_cons, Nat.add_left_cancel_iff] at hweight
              exact ih rfl rfl hweight
  | @drop x y e he h ih =>
      cases a with
      | nil =>
          obtain ⟨rfl, rfl⟩ := List.cons.inj hx
          exact absurd hc (hLoose _ he)
      | cons f a =>
          obtain ⟨rfl, rfl⟩ := List.cons.inj hx
          rw [weight_cons, if_neg (hLoose _ he), Nat.zero_add] at hweight
          exact ih rfl hy hweight
  | @newline x y h ih =>
      cases a with
      | nil =>
          obtain ⟨rfl, rfl⟩ := List.cons.inj hx
          exact absurd hc (by decide)
      | cons f a =>
          obtain ⟨rfl, rfl⟩ := List.cons.inj hx
          cases b with
          | nil =>
              obtain ⟨rfl, rfl⟩ := List.cons.inj hy
              exact absurd hd (by decide)
          | cons g b =>
              obtain ⟨rfl, rfl⟩ := List.cons.inj hy
              rw [weight_cons, weight_cons, if_neg (by decide), if_neg (by decide),
                Nat.add_left_cancel_iff] at hweight
              exact ih rfl rfl hweight

end Weight

end Shrinks

theorem not_mem_normalizeLines (x : Text) : '\r' ∉ normalizeLines x := by
  fun_induction normalizeLines x with
  | case1 => exact List.not_mem_nil
  | case2 cs ih => simp [ih]
  | case3 c cs _ ih =>
      rw [List.mem_cons, not_or]
      refine ⟨?_, ih⟩
      split
      · decide
      next hc => exact Ne.symm hc

theorem normalizeLines_append (hx : '\r' ∉ x) : normalizeLines (x ++ y) = x ++ normalizeLines y := by
  induction x with
  | nil => rfl
  | cons c x ih =>
      rw [List.mem_cons, not_or] at hx
      rw [List.cons_append, normalizeLines, if_neg (Ne.symm hx.1), ih hx.2]
      · rfl
      · exact fun _ hc _ => hx.1 hc.symm

theorem normalizeLines_eq (hx : '\r' ∉ x) : normalizeLines x = x := by
  have h := normalizeLines_append (y := []) hx
  simpa [normalizeLines] using h

/-! ### Tokens that are as short as what they stand for -/

/-- The token an event is written as. -/
def Event.token : Event Char → Token
  | .start name _ => .startTag name [] []
  | .finish name => .endTag name []
  | .char c => .char c

@[simp] theorem spelling_token (e : Event Char) : e.token.spelling = e.render := by
  cases e <;> simp [Event.token, Event.render, Token.spelling]

theorem spell_tokens (events : List (Event Char)) :
    spell (events.map Event.token) = render events := by
  induction events with
  | nil => rfl
  | cons e events ih => simp [ih]

theorem Attribute.spelling_ne_nil (a : Attribute) : a.spelling ≠ [] := by
  simp [Attribute.spelling]

/-- Every token but an empty-element tag is as long as what is read from it, and only the token an event
is written as is no longer. -/
theorem length_events_le (ht : ∀ name attributes space, t ≠ .emptyTag name attributes space) :
    (render t.events).length ≤ t.spelling.length ∧
      ((render t.events).length = t.spelling.length → [t] = t.events.map Event.token) := by
  cases t with
  | char c => simp [Token.events, Token.spelling, Event.render, Event.token]
  | reference body c =>
      simp [Token.events, Token.spelling, Event.render]
  | cdata content =>
      simp [Token.events, Token.spelling]
      omega
  | comment content => simp [Token.events, Token.spelling]
  | instruction target content => simp [Token.events, Token.spelling]
  | startTag name attributes space =>
      have hlen : (Token.startTag name attributes space).spelling.length =
          (render (Token.startTag name attributes space).events).length +
            (attributes.flatMap Attribute.spelling).length + space.length := by
        simp only [Token.spelling, Token.events, render_cons, render_nil, Event.render,
          List.length_append, List.length_cons, List.length_nil]
        omega
      refine ⟨by omega, fun hsame => ?_⟩
      have hattributes : attributes.flatMap Attribute.spelling = [] :=
        List.eq_nil_of_length_eq_zero (by omega)
      have hspace : space = [] := List.eq_nil_of_length_eq_zero (by omega)
      have hnone : attributes = [] := by
        rw [List.flatMap_eq_nil_iff] at hattributes
        exact List.eq_nil_iff_forall_not_mem.mpr fun a ha =>
          a.spelling_ne_nil (hattributes a ha)
      rw [hnone, hspace]
      rfl
  | endTag name space =>
      simp [Token.events, Token.spelling, Event.render, Event.token]
  | emptyTag name attributes space => exact absurd rfl (ht name attributes space)

theorem length_render_le
    (hts : ∀ t ∈ ts, ∀ name attributes space, t ≠ .emptyTag name attributes space) :
    (render (ts.flatMap Token.events)).length ≤ (spell ts).length ∧
      ((render (ts.flatMap Token.events)).length = (spell ts).length →
        ts = (ts.flatMap Token.events).map Event.token) := by
  induction ts with
  | nil => simp
  | cons t ts ih =>
      obtain ⟨ht, hts⟩ := List.forall_mem_cons.mp hts
      obtain ⟨hhead, hhead'⟩ := length_events_le ht
      obtain ⟨htail, htail'⟩ := ih hts
      simp only [List.flatMap_cons, render_append, spell_cons, List.length_append, List.map_append]
      refine ⟨by omega, fun hlen => ?_⟩
      rw [← hhead' (by omega), ← htail' (by omega)]
      rfl

section Written

variable {Loose : Char → Prop} (hLoose : ∀ c, Loose c → ¬Heavy c ∧ ¬IsNameChar c)

include hLoose

/-- An empty-element tag would have its slash where an end tag was written. -/
theorem ne_emptyTag (hts : ∀ t ∈ ts, t.Valid) {rest : Text}
    (h : Shrinks Loose (render (ts.flatMap Token.events)) (spell ts ++ rest)) :
    ∀ t ∈ ts, ∀ name attributes space, t ≠ .emptyTag name attributes space := by
  rintro t hmem name attributes space rfl
  obtain ⟨before, after, rfl⟩ := List.append_of_mem hmem
  have hweight := h.weight_eq fun c hc => (hLoose c hc).1
  have hbefore := weight_render_le fun t ht => hts t (List.mem_append_left _ ht)
  have hafter := weight_render_le fun t ht =>
    hts t (List.mem_append_right _ (List.mem_cons_of_mem _ ht))
  have htag := weight_events_le (hts _ hmem)
  have hname : IsName name := (hts _ hmem).1
  have hzero := weight_eq_zero hname.isNameChar
  simp only [List.flatMap_append, List.flatMap_cons, render_append, spell_append, spell_cons,
    weight_append] at hweight
  have hspelling : weight (Token.emptyTag name attributes space).spelling =
      weight (attributes.flatMap Attribute.spelling) + weight space + 1 := by
    simp [Token.spelling, weight_cons, hzero, Heavy]
    omega
  have hrender : weight (render (Token.emptyTag name attributes space).events) = 1 := by
    simp [Token.events, Event.render, weight_cons, hzero, Heavy]
  have hwritten : render ((before ++ Token.emptyTag name attributes space :: after).flatMap
      Token.events) = (render (before.flatMap Token.events) ++ '<' :: name ++ ['>', '<']) ++
        '/' :: (name ++ '>' :: render (after.flatMap Token.events)) := by
    simp [Token.events, Event.render]
  have hspelled : spell (before ++ Token.emptyTag name attributes space :: after) ++ rest =
      (spell before ++ '<' :: name ++ attributes.flatMap Attribute.spelling ++ space) ++
        '/' :: '>' :: (spell after ++ rest) := by
    simp [Token.spelling]
  -- The slash of the tag corresponds to that of the end tag, and what follows them does not.
  have hfollow := h.after_heavy (fun c hc => (hLoose c hc).1) (Or.inl rfl) (Or.inl rfl) hwritten
    hspelled (by
      simp only [weight_append, weight_cons, hzero]
      simp [Heavy]
      omega)
  cases name with
  | nil => exact hname
  | cons c name =>
      cases hfollow with
      | keep _ _ => exact not_isNameChar (by simp) (Or.inl hname.1)
      | drop hc _ => exact (hLoose _ hc).2 (Or.inl hname.1)

/-- Tokens that spell what their events are written as, or less, are the tokens of these events. -/
theorem tokens_eq (hts : ∀ t ∈ ts, t.Valid) {rest : Text}
    (h : Shrinks Loose (render (ts.flatMap Token.events)) (spell ts ++ rest)) :
    ts = (ts.flatMap Token.events).map Event.token ∧ rest = [] := by
  obtain ⟨hle, heq⟩ := length_render_le (ne_emptyTag hLoose hts h)
  have hlen := h.length_le
  rw [List.length_append] at hlen
  exact ⟨heq (by omega), List.eq_nil_of_length_eq_zero (by omega)⟩

end Written

end Xml
