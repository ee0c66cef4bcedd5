import EtherApe.Lib.Xml.Render

/-!
# Documents that are read back

A document that starts with an XML declaration and a comment and goes on with an element written without
escaping: the element is read back just when its names are names, its characters plain, and no `]]>`
stands among them.
-/

namespace Xml

variable {x y rest : Text} {t : Token} {comment : Text} {events : List (Event Char)}

/-! ### The lines before the element -/

def declarationText : Text :=
  ['<', '?', 'x', 'm', 'l', ' ', 'v', 'e', 'r', 's', 'i', 'o', 'n', '=', '"', '1', '.', '0', '"', '?',
    '>']

/-- The declaration and a comment, each on its line. -/
def prologText (comment : Text) : Text :=
  declarationText ++ '\n' :: (Token.comment comment).spelling ++ ['\n']

theorem not_declaration (ht : t.Valid) : t.spelling ++ rest ≠ declarationText ++ y := by
  intro h
  cases t with
  | char c =>
      obtain ⟨rfl, _⟩ := List.cons.inj h
      exact ht.2.1 rfl
  | reference body c => exact absurd (List.cons.inj h).1 (by decide)
  | cdata content => exact absurd (List.cons.inj (List.cons.inj h).2).1 (by decide)
  | comment content => exact absurd (List.cons.inj (List.cons.inj h).2).1 (by decide)
  | instruction target content =>
      obtain ⟨hname, htarget, _, hspace, _⟩ := ht
      have hrest : target ++ (content ++ '?' :: '>' :: rest) =
          ['x', 'm', 'l'] ++ ' ' :: (declarationText.drop 6 ++ y) := by
        have htail := (List.cons.inj (List.cons.inj h).2).2
        simpa [Token.spelling, declarationText] using htail
      have hxml : target = ['x', 'm', 'l'] := by
        have hname' : ∀ c ∈ ['x', 'm', 'l'], IsNameChar c := by decide
        cases content with
        | nil =>
            exact (spans_eq hname.isNameChar hname' (not_isNameChar (by simp))
              (not_isNameChar (by simp)) hrest).1
        | cons c content =>
            exact (spans_eq hname.isNameChar hname' (not_isNameChar_of_isSpace (hspace c rfl))
              (not_isNameChar (by simp)) hrest).1
      exact htarget (by rw [hxml]; decide)
  | startTag name attributes space =>
      cases name with
      | nil => exact ht.1
      | cons c name =>
          obtain ⟨rfl, _⟩ := List.cons.inj (List.cons.inj h).2
          exact not_isNameChar (by simp) (Or.inl ht.1.1)
  | endTag name space => exact absurd (List.cons.inj (List.cons.inj h).2).1 (by decide)
  | emptyTag name attributes space =>
      cases name with
      | nil => exact ht.1
      | cons c name =>
          obtain ⟨rfl, _⟩ := List.cons.inj (List.cons.inj h).2
          exact not_isNameChar (by simp) (Or.inl ht.1.1)

theorem newline_token (ht : t.Valid) (h : t.spelling ++ rest = '\n' :: y) :
    t = .char '\n' ∧ rest = y := by
  cases t with
  | char c =>
      obtain ⟨rfl, hrest⟩ := List.cons.inj h
      exact ⟨rfl, hrest⟩
  | reference body c => exact absurd (List.cons.inj h).1 (by decide)
  | cdata content => exact absurd (List.cons.inj h).1 (by decide)
  | comment content => exact absurd (List.cons.inj h).1 (by decide)
  | instruction target content => exact absurd (List.cons.inj h).1 (by decide)
  | startTag name attributes space => exact absurd (List.cons.inj h).1 (by decide)
  | endTag name space => exact absurd (List.cons.inj h).1 (by decide)
  | emptyTag name attributes space => exact absurd (List.cons.inj h).1 (by decide)

theorem comments_eq {a b : Text} (ha : ¬['-', '-'] <:+: a) (ha' : a.getLast? ≠ some '-')
    (hb : ¬['-', '-'] <:+: b) (hb' : b.getLast? ≠ some '-')
    (h : a ++ '-' :: '-' :: x = b ++ '-' :: '-' :: y) : a = b ∧ x = y := by
  induction a generalizing b with
  | nil =>
      cases b with
      | nil => simpa using h
      | cons c b =>
          obtain ⟨rfl, htail⟩ := List.cons.inj h
          cases b with
          | nil => simp at hb'
          | cons d b =>
              obtain ⟨rfl, _⟩ := List.cons.inj htail
              exact absurd ⟨[], b, rfl⟩ hb
  | cons c a ih =>
      cases b with
      | nil =>
          obtain ⟨rfl, htail⟩ := List.cons.inj h
          cases a with
          | nil => simp at ha'
          | cons d a =>
              obtain ⟨rfl, _⟩ := List.cons.inj htail
              exact absurd ⟨[], a, rfl⟩ ha
      | cons d b =>
          obtain ⟨rfl, htail⟩ := List.cons.inj h
          have hlast : a.getLast? ≠ some '-' := by
            cases a with
            | nil => simp
            | cons e a => rwa [List.getLast?_cons_cons] at ha'
          have hlast' : b.getLast? ≠ some '-' := by
            cases b with
            | nil => simp
            | cons e b => rwa [List.getLast?_cons_cons] at hb'
          obtain ⟨rfl, hrest⟩ := ih (fun h => ha (h.trans (List.suffix_cons _ _).isInfix)) hlast
            (fun h => hb (h.trans (List.suffix_cons _ _).isInfix)) hlast' htail
          exact ⟨rfl, hrest⟩

theorem comment_token (hcomment : (Token.comment comment).Valid) (ht : t.Valid)
    (h : t.spelling ++ rest = (Token.comment comment).spelling ++ y) :
    t = .comment comment ∧ rest = y := by
  cases t with
  | char c =>
      obtain ⟨rfl, _⟩ := List.cons.inj h
      exact absurd rfl ht.2.1
  | reference body c => exact absurd (List.cons.inj h).1 (by decide)
  | cdata content =>
      exact absurd (List.cons.inj (List.cons.inj (List.cons.inj h).2).2).1 (by decide)
  | comment content =>
      have hrest : content ++ '-' :: '-' :: ('>' :: rest) = comment ++ '-' :: '-' :: ('>' :: y) := by
        simpa [Token.spelling] using h
      obtain ⟨rfl, htail⟩ := comments_eq ht.2.1 ht.2.2 hcomment.2.1 hcomment.2.2 hrest
      exact ⟨rfl, (List.cons.inj htail).2⟩
  | instruction target content => exact absurd (List.cons.inj (List.cons.inj h).2).1 (by decide)
  | startTag name attributes space =>
      cases name with
      | nil => exact ht.1.elim
      | cons c name =>
          obtain ⟨rfl, _⟩ := List.cons.inj (List.cons.inj h).2
          exact absurd (Or.inl ht.1.1) (not_isNameChar (by simp))
  | endTag name space => exact absurd (List.cons.inj (List.cons.inj h).2).1 (by decide)
  | emptyTag name attributes space =>
      cases name with
      | nil => exact ht.1.elim
      | cons c name =>
          obtain ⟨rfl, _⟩ := List.cons.inj (List.cons.inj h).2
          exact absurd (Or.inl ht.1.1) (not_isNameChar (by simp))

/-- What starts a name after `<` is no comment, instruction or white space. -/
theorem tag_not_misc {c : Char} (hc : IsNameStart c) (h : t.spelling ++ rest = '<' :: c :: y) :
    ¬t.IsMisc := by
  intro hmisc
  cases t with
  | char d =>
      obtain ⟨rfl, _⟩ := List.cons.inj h
      have hspace : ¬IsSpace '<' := by decide
      exact hspace hmisc
  | reference body d => exact hmisc
  | cdata content => exact hmisc
  | comment content =>
      obtain ⟨rfl, _⟩ := List.cons.inj (List.cons.inj h).2
      exact not_isNameChar (by simp) (Or.inl hc)
  | instruction target content =>
      obtain ⟨rfl, _⟩ := List.cons.inj (List.cons.inj h).2
      exact not_isNameChar (by simp) (Or.inl hc)
  | startTag name attributes space => exact hmisc
  | endTag name space => exact hmisc
  | emptyTag name attributes space => exact hmisc

/-- A token that is forced and opens no element is the first of those before the root. -/
theorem take_prolog {prolog root epilog : List Token} {t₀ : Token} {w : Text}
    (hprolog : ∀ t ∈ prolog, t.Valid ∧ t.IsMisc) (hroot : ∀ t ∈ root, t.Valid) (hne : root ≠ [])
    (hopens : ∀ t ∈ root.head?, t.Opens) (hnot : ¬t₀.Opens)
    (hforced : ∀ {t : Token} {rest : Text}, t.Valid → t.spelling ++ rest = w → t = t₀ ∧ rest = y)
    (h : spell (prolog ++ root ++ epilog) = w) :
    ∃ prolog', prolog = t₀ :: prolog' ∧ spell (prolog' ++ root ++ epilog) = y := by
  cases prolog with
  | nil =>
      cases root with
      | nil => exact absurd rfl hne
      | cons t root =>
          rw [List.nil_append, List.cons_append, spell_cons] at h
          obtain ⟨rfl, _⟩ := hforced (hroot t List.mem_cons_self) h
          exact absurd (hopens t rfl) hnot
  | cons t prolog =>
      rw [List.cons_append, List.cons_append, spell_cons] at h
      obtain ⟨rfl, hrest⟩ := hforced (hprolog t List.mem_cons_self).1 h
      exact ⟨prolog, rfl, hrest⟩

/-! ### The declaration -/

theorem question_not_mem_attribute {a : Attribute} (ha : a.Valid)
    (hitems : '?' ∉ a.items.flatMap ValueItem.spelling) : '?' ∉ a.spelling := by
  have hspace : ∀ {s : Text}, (∀ c ∈ s, IsSpace c) → '?' ∉ s :=
    fun hs hmem => absurd (hs _ hmem) (by decide)
  have hname : '?' ∉ a.name := fun hmem =>
    not_isNameChar (by simp) (ha.name.isNameChar _ hmem)
  have hquote : '?' ≠ a.quote := by
    rcases ha.quote with h | h <;> rw [h] <;> decide
  simp [Attribute.spelling, hspace ha.before.2, hspace ha.left, hspace ha.right, hname, hquote]
  simpa using hitems

theorem spelling_items (s : Text) : (s.map ValueItem.char).flatMap ValueItem.spelling = s := by
  induction s with
  | nil => rfl
  | cons c s ih => simpa [ValueItem.spelling] using ih

theorem IsDeclaration.exists_body {decl : Text} (h : IsDeclaration decl) :
    ∃ body, '?' ∉ body ∧ decl = ['<', '?', 'x', 'm', 'l'] ++ body ++ ['?', '>'] := by
  obtain ⟨version, encoding, standalone, space, hversion, _, ⟨digits, _, hdigits, hitems⟩,
    hencoding, hstandalone, hspace, rfl⟩ := h
  refine ⟨version.spelling ++ encoding.toList.flatMap Attribute.spelling ++
    standalone.toList.flatMap Attribute.spelling ++ space, ?_, by simp⟩
  simp only [List.mem_append, not_or]
  refine ⟨⟨⟨?_, ?_⟩, ?_⟩, ?_⟩
  · refine question_not_mem_attribute hversion ?_
    rw [hitems, spelling_items]
    simp only [List.mem_cons, not_or]
    exact ⟨by decide, by decide, fun hmem => absurd (hdigits _ hmem) (by decide)⟩
  · cases encoding with
    | none => simp
    | some a =>
        obtain ⟨ha, _, hitems⟩ := hencoding a rfl
        simpa using question_not_mem_attribute ha (by rw [hitems]; decide)
  · cases standalone with
    | none => simp
    | some a =>
        obtain ⟨ha, _, hitems | hitems⟩ := hstandalone a rfl
        · simpa using question_not_mem_attribute ha (by rw [hitems]; decide)
        · simpa using question_not_mem_attribute ha (by rw [hitems]; decide)
  · exact fun hmem => absurd (hspace _ hmem) (by decide)

theorem declaration_eq {decl : Text} {ts : List Token} (hdecl : decl = [] ∨ IsDeclaration decl)
    (hts : ∀ t ∈ ts, t.Valid) (hne : ts ≠ []) (h : decl ++ spell ts = declarationText ++ y) :
    decl = declarationText ∧ spell ts = y := by
  rcases hdecl with rfl | hdecl
  · cases ts with
    | nil => exact absurd rfl hne
    | cons t ts =>
        rw [List.nil_append, spell_cons] at h
        exact absurd h (not_declaration (hts t List.mem_cons_self))
  · obtain ⟨body, hbody, rfl⟩ := hdecl.exists_body
    have hrest : body ++ '?' :: ('>' :: spell ts) =
        (declarationText.drop 5).take 14 ++ '?' :: ('>' :: y) := by
      simpa [declarationText] using h
    have hbody' : ∀ c ∈ body, c ≠ '?' := fun c hc heq => hbody (heq ▸ hc)
    obtain ⟨rfl, hafter⟩ := spans_eq hbody' (by decide) (by simp) (by simp) hrest
    exact ⟨rfl, (List.cons.inj hafter).2⟩

theorem isDeclaration_declarationText : IsDeclaration declarationText := by
  refine ⟨⟨[' '], "version".toList, [], [], '"', ['1', '.', '0'].map .char⟩, none, none, [], ?_, rfl,
    ⟨['0'], by simp, by decide, rfl⟩, by simp, by simp, by simp, rfl⟩
  refine ⟨by decide, by decide, by simp, by simp, Or.inl rfl, ?_⟩
  simp only [List.map_cons, List.map_nil, List.forall_mem_cons, List.not_mem_nil, false_implies,
    implies_true, and_true]
  exact ⟨⟨by decide, by decide⟩, ⟨by decide, by decide⟩, ⟨by decide, by decide⟩⟩

/-! ### Reading back -/

/-- Events without `]]>` among their characters. -/
def NoCdataEnd (events : List (Event Char)) : Prop :=
  ¬[.char ']', .char ']', .char '>'] <:+: events

section Written

variable {Loose : Char → Prop} (hLoose : ∀ c, Loose c → ¬Heavy c ∧ ¬IsNameChar c)
  (hcr : Loose '\r') (hlt : ¬Loose '<')

theorem Reading.isName_root {doc : Text} (r : Reading doc events) {name : Text}
    {attributes : List (Text × Text)} (h : .start name attributes ∈ events) : IsName name := by
  rw [← r.events_eq] at h
  obtain ⟨t, ht, hmem⟩ := List.mem_flatMap.mp h
  have hvalid := r.root_valid t ht
  cases t with
  | startTag name' attributes' space =>
      simp only [Token.events, List.mem_singleton, Event.start.injEq] at hmem
      exact hmem.1 ▸ hvalid.1
  | emptyTag name' attributes' space =>
      simp only [Token.events, List.mem_cons, Event.start.injEq, List.not_mem_nil, or_false,
        reduceCtorEq] at hmem
      exact hmem.1 ▸ hvalid.1
  | char c => simp [Token.events] at hmem
  | reference body c => simp [Token.events] at hmem
  | cdata content => simp [Token.events] at hmem
  | comment content => simp [Token.events] at hmem
  | instruction target content => simp [Token.events] at hmem
  | endTag name' space => simp [Token.events] at hmem

include hLoose hlt

theorem exists_tag {name : Text} (hname : IsName name) {d : Text}
    (h : Shrinks Loose ('<' :: name ++ x) d) : ∃ c d', IsNameStart c ∧ d = '<' :: c :: d' := by
  cases name with
  | nil => exact hname.elim
  | cons c name =>
      cases h with
      | keep _ h =>
          cases h with
          | keep _ h => exact ⟨_, _, hname.1, rfl⟩
          | drop hc _ => exact absurd (Or.inl hname.1) (hLoose _ hc).2
          | newline _ => exact absurd (Or.inl hname.1) (not_isNameChar (by simp))
      | drop hc _ => exact absurd hc hlt

omit hLoose hlt in
theorem attributes_of_token {name : Text} {attributes : List (Text × Text)}
    (h : .start name attributes ∈ (events.map Event.token).flatMap Token.events) :
    attributes = [] := by
  obtain ⟨t, ht, hmem⟩ := List.mem_flatMap.mp h
  obtain ⟨e, _, rfl⟩ := List.mem_map.mp ht
  cases e with
  | start name' attributes' =>
      simp only [Event.token, Token.events, List.map_nil, List.mem_singleton, Event.start.injEq] at hmem
      exact hmem.2
  | finish name' => simp [Event.token, Token.events] at hmem
  | char c => simp [Event.token, Token.events] at hmem

include hcr

/-- The tokens of the root element are those its events are written as, and nothing follows. -/
theorem Reading.root_eq {doc : Text} (r : Reading (prologText comment ++ doc) events)
    (hcomment : (Token.comment comment).Valid) (hcomment' : '\r' ∉ comment)
    (hdoc : Shrinks Loose (render events) doc) :
    r.root = events.map Event.token ∧ normalizeLines doc = render events := by
  obtain ⟨name, attributes, body, hbody, hevents⟩ := r.element
  have hname : IsName name := r.isName_root (by rw [hevents]; exact List.mem_cons_self)
  have hlines : Shrinks Loose (render events) (normalizeLines doc) :=
    hdoc.trans hcr (.normalizeLines hcr doc)
  have htag : render events = '<' :: name ++ ('>' :: render (body ++ [.finish name])) := by
    rw [hevents]
    simp [Event.render]
  obtain ⟨c, d', hc, hd'⟩ := exists_tag hLoose hlt hname (htag ▸ hlines)
  -- The lines before the root are read as they were written.
  have hprolog : '\r' ∉ prologText comment := by
    simpa [prologText, declarationText, Token.spelling] using hcomment'
  have hspelled : r.decl ++ spell (r.prolog ++ r.root ++ r.epilog) =
      declarationText ++ '\n' :: ((Token.comment comment).spelling ++ '\n' :: '<' :: c :: d') := by
    rw [← r.spelled, normalizeLines_append hprolog, hd']
    simp [prologText]
  have hne : r.root ≠ [] := by
    intro hnil
    have hnone := r.events_eq
    rw [hnil, hevents] at hnone
    cases hnone
  have hvalid : ∀ t ∈ r.prolog ++ r.root ++ r.epilog, t.Valid := by
    intro t ht
    rcases List.mem_append.mp ht with ht | ht
    · rcases List.mem_append.mp ht with ht | ht
      · exact (r.prolog_valid t ht).1
      · exact r.root_valid t ht
    · exact (r.epilog_valid t ht).1
  obtain ⟨-, hspell₀⟩ := declaration_eq r.decl_valid hvalid (by simp [hne]) hspelled
  obtain ⟨prolog₁, h₁, hspell₁⟩ := take_prolog r.prolog_valid r.root_valid hne r.root_opens id
    newline_token hspell₀
  have hprolog₁ : ∀ t ∈ prolog₁, t.Valid ∧ t.IsMisc := fun t ht => r.prolog_valid t (by simp [h₁, ht])
  obtain ⟨prolog₂, rfl, hspell₂⟩ := take_prolog hprolog₁ r.root_valid hne r.root_opens id
    (comment_token hcomment) hspell₁
  have hprolog₂ : ∀ t ∈ prolog₂, t.Valid ∧ t.IsMisc := fun t ht => hprolog₁ t (by simp [ht])
  obtain ⟨prolog₃, rfl, hspell₃⟩ := take_prolog hprolog₂ r.root_valid hne r.root_opens id
    newline_token hspell₂
  have hprolog₃ : prolog₃ = [] := by
    cases prolog₃ with
    | nil => rfl
    | cons t prolog₃ =>
        rw [List.cons_append, List.cons_append, spell_cons] at hspell₃
        exact absurd (hprolog₂ t (by simp)).2 (tag_not_misc hc hspell₃)
  rw [hprolog₃, List.nil_append, spell_append, ← hd'] at hspell₃
  have hshrinks : Shrinks Loose (render (r.root.flatMap Token.events))
      (spell r.root ++ spell r.epilog) := by
    rw [r.events_eq, hspell₃]
    exact hlines
  obtain ⟨hroot, hepilog⟩ := tokens_eq hLoose r.root_valid hshrinks
  rw [r.events_eq] at hroot
  refine ⟨hroot, ?_⟩
  rw [← hspell₃, hepilog, List.append_nil, hroot, spell_tokens]

/-- What is read back as it was written has no loose characters, and none that mean markup. -/
theorem Reading.written {doc : Text} (r : Reading (prologText comment ++ doc) events)
    (hcomment : (Token.comment comment).Valid) (hcomment' : '\r' ∉ comment)
    (hdoc : Shrinks Loose (render events) doc) :
    doc = render events ∧ (∀ e ∈ events, e.Faithful) ∧ NoCdataEnd events := by
  obtain ⟨hroot, hlines⟩ := r.root_eq hLoose hcr hlt hcomment hcomment' hdoc
  have hnocr : '\r' ∉ render events := hlines ▸ not_mem_normalizeLines doc
  have hlen : (render events).length ≤ doc.length := by
    rw [← hlines]
    exact (@Shrinks.normalizeLines (fun c => c = '\r') rfl doc).length_le
  refine ⟨hdoc.eq_of_length hlen hnocr, fun e he => ?_, fun hinside => r.no_cdata_end ?_⟩
  · have hvalid : e.token.Valid := r.root_valid _ (by rw [hroot]; exact List.mem_map_of_mem he)
    cases e with
    | start name attributes =>
        have htokens := he
        rw [← r.events_eq, hroot] at htokens
        exact ⟨hvalid.1, attributes_of_token htokens⟩
    | finish name => exact hvalid.1
    | char c =>
        refine ⟨hvalid.1, hvalid.2.1, hvalid.2.2, ?_⟩
        rintro rfl
        exact hnocr (List.mem_flatMap.mpr ⟨_, he, List.mem_singleton_self _⟩)
  · rw [hroot]
    exact hinside.map Event.token

end Written

theorem Event.Faithful.token_valid {e : Event Char} (h : e.Faithful) : e.token.Valid := by
  cases e with
  | start name attributes => exact ⟨h.1, by simp, by simp, by simp⟩
  | finish name => exact ⟨h, by simp⟩
  | char c => exact ⟨h.1, h.2.1, h.2.2.1⟩

theorem Event.Faithful.cr_not_mem {e : Event Char} (h : e.Faithful) : '\r' ∉ e.render := by
  have hname : ∀ {name : Text}, IsName name → '\r' ∉ name :=
    fun hname hmem => not_isNameChar (by simp) (hname.isNameChar _ hmem)
  cases e with
  | start name attributes => simpa [Event.render] using hname h.1
  | finish name => simpa [Event.render] using hname h
  | char c => simpa [Event.render] using Ne.symm h.2.2.2

theorem events_tokens (h : ∀ e ∈ events, e.Faithful) :
    (events.map Event.token).flatMap Token.events = events := by
  induction events with
  | nil => rfl
  | cons e events ih =>
      obtain ⟨he, h⟩ := List.forall_mem_cons.mp h
      rw [List.map_cons, List.flatMap_cons, ih h]
      cases e with
      | start name attributes =>
          rw [he.2]
          rfl
      | finish name => rfl
      | char c => rfl

theorem NoCdataEnd.tokens (h : NoCdataEnd events) :
    ¬[.char ']', .char ']', .char '>'] <:+: events.map Event.token := by
  have htoken : ∀ {e : Event Char} {c : Char}, e.token = .char c → e = .char c := by
    intro e c he
    cases e with
    | start name attributes => cases he
    | finish name => cases he
    | char d =>
        cases he
        rfl
  intro hinside
  obtain ⟨l, hl, hmap⟩ := List.infix_map_iff.mp hinside
  match l, hmap with
  | [], hmap => simp at hmap
  | [_], hmap => simp at hmap
  | [_, _], hmap => simp at hmap
  | [e, f, g], hmap =>
      obtain ⟨he, hmap⟩ := List.cons.inj hmap
      obtain ⟨hf, hmap⟩ := List.cons.inj hmap
      obtain ⟨hg, _⟩ := List.cons.inj hmap
      rw [htoken he.symm, htoken hf.symm, htoken hg.symm] at hl
      exact h hl
  | _ :: _ :: _ :: _ :: _, hmap => simp at hmap

/-- Events without markup among their characters are read back. -/
theorem reads_of_faithful (hcomment : (Token.comment comment).Valid) (hcomment' : '\r' ∉ comment)
    (helement : IsElement events) (hfaithful : ∀ e ∈ events, e.Faithful)
    (hcdata : NoCdataEnd events) : Reads (prologText comment ++ render events) events := by
  have hnewline : (Token.char '\n').Valid ∧ (Token.char '\n').IsMisc :=
    ⟨⟨Or.inr (Or.inl rfl), by decide, by decide⟩, Or.inr (Or.inr (Or.inl rfl))⟩
  have hnocr : '\r' ∉ prologText comment ++ render events := by
    rw [List.mem_append, not_or]
    refine ⟨by simpa [prologText, declarationText, Token.spelling] using hcomment', fun hmem => ?_⟩
    obtain ⟨e, he, hmem⟩ := List.mem_flatMap.mp hmem
    exact (hfaithful e he).cr_not_mem hmem
  obtain ⟨name, attributes, body, hbody, rfl⟩ := helement
  refine ⟨{
    decl := declarationText
    prolog := [.char '\n', .comment comment, .char '\n']
    root := (Event.start name attributes :: body ++ [Event.finish name]).map Event.token
    epilog := []
    decl_valid := Or.inr isDeclaration_declarationText
    prolog_valid := by
      simp only [List.forall_mem_cons, List.not_mem_nil, false_implies, implies_true, and_true]
      exact ⟨hnewline, ⟨hcomment, trivial⟩, hnewline⟩
    root_valid := List.forall_mem_map.mpr fun e he => (hfaithful e he).token_valid
    root_opens := by simp [Event.token, Token.Opens]
    epilog_valid := by simp
    no_cdata_end := hcdata.tokens
    spelled := by
      rw [normalizeLines_eq hnocr, spell_append, spell_append, spell_tokens]
      simp [prologText, spell, Token.spelling]
    events_eq := events_tokens hfaithful
    element := ⟨name, attributes, body, hbody, rfl⟩ }⟩

end Xml
