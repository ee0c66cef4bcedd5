import EtherApe.Lib.Linked
import EtherApe.Lib.SortedTree

/-!
# Hash tables of sorted chains

A table of buckets, each a doubly linked chain sorted by key. A bucket does not point to the first
record of its chain but to the one that was used last, so a search starts in the middle: it walks
forward while it can, then backward while it can. Where it stops is the same for every start.
-/

/-- What a table needs to know of its records: which links it uses and how it orders their keys. -/
structure ChainTable (ρ α κ β : Type) where
  links : LinkFields ρ α
  key : α → κ
  compare : κ → κ → Int
  hash : κ → β
  key_setNext : ∀ a x, key (links.setNext a x) = key a
  key_setPrevious : ∀ a x, key (links.setPrevious a x) = key a
  threeWay : ThreeWay compare
  eq_of_compare : ∀ {a b}, compare a b = 0 → a = b

namespace ChainTable

attribute [instance] threeWay

variable {ρ α κ β : Type}

/-- Follows one link as long as the record it leads to is worth going to. A walk over more records
than there are goes round in a circle. -/
def walk (toward : α → Option ρ) (goes : α → Bool) (h : Heap ρ α) : Nat → ρ → Option ρ
  | 0, _ => none
  | fuel + 1, rp => do
      let a ← h rp
      match toward a with
      | none => some rp
      | some t => do
          let b ← h t
          if goes b then walk toward goes h fuel t else some rp

variable (T : ChainTable ρ α κ β)

/-- Walks forward over the keys to go up to, then backward over the keys to go down to. -/
def seek (up down : κ → Bool) (fuel : Nat) (h : Heap ρ α) (rp : ρ) : Option ρ := do
  let rp ← walk T.links.next (fun a => up (T.key a)) h fuel rp
  walk T.links.previous (fun a => down (T.key a)) h fuel rp

section Operations

variable [DecidableEq ρ] [DecidableEq β]

/-- Links a record into its bucket's chain and makes the bucket point to it. -/
def link (fuel : Nat) (h : Heap ρ α) (table : β → Option ρ) (x : ρ) :
    Option (Heap ρ α × (β → Option ρ)) := do
  let a ← h x
  let bucket := T.hash (T.key a)
  let h ← match table bucket with
    | none => h.write x T.links.data
    | some rp => do
        let rp ← T.seek (T.compare (T.key a) · > 0) (T.compare (T.key a) · < 0) fuel h rp
        let b ← h rp
        if T.compare (T.key b) (T.key a) < 0 then T.links.insertAfter h rp x
        else T.links.insertBefore h rp x
  some (h, Function.update table bucket (some x))

/-- Takes a record out of its bucket's chain; a bucket that points to it moves to a neighbour. -/
def unlink (h : Heap ρ α) (table : β → Option ρ) (x : ρ) :
    Option (Heap ρ α × (β → Option ρ)) := do
  let a ← h x
  let bucket := T.hash (T.key a)
  let table := if table bucket = some x then
      Function.update table bucket ((T.links.previous a).or (T.links.next a))
    else table
  let h ← T.links.detach h x
  some (h, table)

/-- Looks a key up; a bucket where it is found points to its record from then on. -/
def find (fuel : Nat) (h : Heap ρ α) (table : β → Option ρ) (k : κ) :
    Option (Option ρ × (β → Option ρ)) :=
  match table (T.hash k) with
  | none => some (none, table)
  | some rp => do
      let rp ← T.seek (T.compare k · ≥ 0) (T.compare k · ≤ 0) fuel h rp
      let a ← h rp
      if T.compare k (T.key a) = 0 then
        some (some rp, Function.update table (T.hash k) (some rp))
      else some (none, table)

end Operations

/-! ### What a table holds -/

def keyAt (h : Heap ρ α) (r : ρ) : Option κ := (h r).map T.key

def Before (h : Heap ρ α) (r s : ρ) : Prop :=
  ∀ k ∈ T.keyAt h r, ∀ k' ∈ T.keyAt h s, T.compare k k' < 0

/-- The chains of a table that holds the records of `dom`. -/
structure Holds (h : Heap ρ α) (table : β → Option ρ) (dom : ρ → Prop) (chains : β → List ρ) :
    Prop where
  linked : ∀ b, T.links.Seg h none (chains b) none
  sorted : ∀ b, (chains b).Pairwise (T.Before h)
  mem_iff : ∀ b r, r ∈ chains b ↔ dom r ∧ (T.keyAt h r).map T.hash = some b
  finger_none : ∀ b, table b = none → chains b = []
  finger_mem : ∀ b r, table b = some r → r ∈ chains b

variable {T} {h h' : Heap ρ α} {table : β → Option ρ} {dom : ρ → Prop} {chains : β → List ρ}

theorem key_data (a : α) : T.key (T.links.data a) = T.key a := by
  rw [LinkFields.data, T.key_setPrevious, T.key_setNext]

theorem keyAt_of_sameData (hdata : T.links.SameData h h') : T.keyAt h' = T.keyAt h :=
  funext (hdata.map key_data)

theorem before_of_keyAt (hkey : T.keyAt h' = T.keyAt h) : T.Before h' = T.Before h := by
  unfold Before
  rw [hkey]

theorem keyAt_of_eq {a : α} {r : ρ} (ha : h r = some a) : T.keyAt h r = some (T.key a) := by
  rw [keyAt, ha, Option.map_some]

theorem exists_of_keyAt {k : κ} {r : ρ} (hk : T.keyAt h r = some k) :
    ∃ a, h r = some a ∧ T.key a = k := Option.map_eq_some_iff.mp hk

theorem keyAt_of_seg {p n : Option ρ} {rs : List ρ} {r : ρ} (hseg : T.links.Seg h p rs n)
    (hr : r ∈ rs) : ∃ k, T.keyAt h r = some k := by
  obtain ⟨a, ha⟩ := hseg.live hr
  exact ⟨T.key a, keyAt_of_eq ha⟩

theorem not_before_of_keyAt {k : κ} {r s : ρ} (hr : T.keyAt h r = some k)
    (hs : T.keyAt h s = some k) : ¬T.Before h r s :=
  fun hbefore => (hbefore k hr k hs).ne (@ThreeWay.refl _ T.compare _ k)

theorem nodup_of_sorted {p n : Option ρ} {rs : List ρ} (hseg : T.links.Seg h p rs n)
    (hsorted : rs.Pairwise (T.Before h)) : rs.Nodup := by
  refine List.Pairwise.imp_of_mem (fun hr _ hbefore heq => ?_) hsorted
  subst heq
  obtain ⟨k, hk⟩ := keyAt_of_seg hseg hr
  exact not_before_of_keyAt hk hk hbefore

/-! ### Walking -/

theorem walk_next {F : LinkFields ρ α} {p : Option ρ} {bs : List ρ} (goes : α → Bool) (fuel : Nat)
    (r : ρ) (hseg : F.Seg h p (r :: bs) none) (hfuel : bs.length < fuel) :
    ∃ cs s ds, walk F.next goes h fuel r = some s ∧ r :: bs = cs ++ s :: ds ∧
      (cs = [] ∨ ∀ a ∈ h s, goes a = true) ∧ ∀ t ∈ ds.head?, ∀ a ∈ h t, goes a = false := by
  induction bs generalizing r p fuel with
  | nil =>
      obtain ⟨⟨a, ha, _, hnext⟩, _⟩ := hseg
      obtain ⟨fuel, rfl⟩ := Nat.exists_eq_add_of_lt hfuel
      exact ⟨[], r, [], by simp [walk, ha, hnext], rfl, Or.inl rfl, by simp⟩
  | cons t bs ih =>
      obtain ⟨⟨a, ha, _, hnext⟩, hrest⟩ := hseg
      obtain ⟨b, hb, _, _⟩ := hrest.1
      obtain ⟨fuel, rfl⟩ : ∃ n, fuel = n + 1 := ⟨fuel - 1, by omega⟩
      by_cases hgoes : goes b = true
      · obtain ⟨cs, s, ds, hwalk, hlist, hfirst, hlast⟩ :=
          ih fuel t hrest (by simpa using hfuel)
        refine ⟨r :: cs, s, ds, ?_, by rw [hlist, List.cons_append], Or.inr ?_, hlast⟩
        · simpa [walk, ha, hnext, hb, hgoes] using hwalk
        · rcases hfirst with rfl | hfirst
          · obtain ⟨rfl, _⟩ := List.cons.inj hlist
            intro c hc
            obtain rfl := Option.some.inj (hb.symm.trans hc)
            exact hgoes
          · exact hfirst
      · refine ⟨[], r, t :: bs, by simp [walk, ha, hnext, hb, hgoes], rfl, Or.inl rfl, ?_⟩
        intro t' ht' c hc
        obtain rfl := Option.some.inj ht'
        obtain rfl := Option.some.inj (hb.symm.trans hc)
        simpa using hgoes

theorem walk_previous {F : LinkFields ρ α} {n : Option ρ} {as : List ρ} (goes : α → Bool)
    (fuel : Nat) (r : ρ) (hseg : F.Seg h none (as ++ [r]) n) (hfuel : as.length < fuel) :
    ∃ cs s ds, walk F.previous goes h fuel r = some s ∧ as ++ [r] = cs ++ s :: ds ∧
      (ds = [] ∨ ∀ a ∈ h s, goes a = true) ∧ ∀ t ∈ cs.getLast?, ∀ a ∈ h t, goes a = false := by
  have hflip := LinkFields.seg_flip.mpr hseg
  rw [List.reverse_concat] at hflip
  obtain ⟨cs, s, ds, hwalk, hlist, hfirst, hlast⟩ :=
    walk_next goes fuel r hflip (by simpa using hfuel)
  refine ⟨ds.reverse, s, cs.reverse, hwalk, ?_, by simpa using hfirst, ?_⟩
  · have hreverse := congrArg List.reverse hlist
    simpa using hreverse
  · rwa [List.getLast?_reverse]

/-- Wherever a search starts, it stops where the smaller keys end. -/
theorem seek_spec {fuel : Nat} {rs : List ρ} {r : ρ} (up down : κ → Bool) (k : κ)
    (hseg : T.links.Seg h none rs none) (hsorted : rs.Pairwise (T.Before h)) (hr : r ∈ rs)
    (hfuel : rs.length ≤ fuel)
    (hup : ∀ t ∈ rs, ∀ k' ∈ T.keyAt h t, (up k' = true ↔ 0 ≤ T.compare k k'))
    (hdown : ∀ t ∈ rs, ∀ k' ∈ T.keyAt h t, (down k' = true ↔ T.compare k k' ≤ 0)) :
    ∃ as s bs, T.seek up down fuel h r = some s ∧ rs = as ++ s :: bs ∧
      (∀ t ∈ as, ∀ k' ∈ T.keyAt h t, 0 < T.compare k k') ∧
      ∀ t ∈ bs, ∀ k' ∈ T.keyAt h t, T.compare k k' < 0 := by
  have hlive : ∀ t ∈ rs, ∃ a, h t = some a := fun t ht => hseg.live ht
  obtain ⟨as, bs, rfl⟩ := List.append_of_mem hr
  -- Forward, to the last key that is not above `k`.
  obtain ⟨cs, s, ds, hforward, hlist, _, hstop⟩ :=
    walk_next (fun a => up (T.key a)) fuel r (LinkFields.seg_append.mp hseg).2
      (by simp at hfuel; omega)
  rw [hlist, ← List.append_assoc] at hseg hsorted hup hdown hlive hfuel ⊢
  have hds : ∀ t ∈ ds, ∀ k' ∈ T.keyAt h t, T.compare k k' < 0 := by
    cases ds with
    | nil => simp
    | cons d ds =>
        obtain ⟨a, ha⟩ := hlive d (by simp)
        have hd : T.compare k (T.key a) < 0 := by
          rw [← not_le, ← hup d (by simp) _ (keyAt_of_eq ha), Bool.not_eq_true]
          exact hstop d rfl a ha
        have hbefore := (List.pairwise_append.mp hsorted).2.1.of_cons
        intro t ht k' hk'
        rcases List.mem_cons.mp ht with rfl | ht
        · obtain rfl := Option.some.inj ((keyAt_of_eq ha).symm.trans hk')
          exact hd
        · exact ThreeWay.lt_of_lt_of_le hd
            ((List.rel_of_pairwise_cons hbefore ht) _ (keyAt_of_eq ha) _ hk').le
  -- Backward, to the first key that is not below it.
  rw [List.append_cons] at hseg
  obtain ⟨cs', s', ds', hbackward, hlist', hfirst, hstop'⟩ :=
    walk_previous (fun a => down (T.key a)) fuel s (LinkFields.seg_append.mp hseg).1
      (by simp at hfuel ⊢; omega)
  rw [List.append_cons, hlist', List.append_assoc, List.cons_append] at hsorted hup hdown hlive ⊢
  refine ⟨cs', s', ds' ++ ds, ?_, rfl, ?_, ?_⟩
  · simpa only [seek, Option.bind_eq_bind, hforward, Option.bind_some] using hbackward
  · rcases List.eq_nil_or_concat' cs' with rfl | ⟨cs', d, rfl⟩
    · simp
    · obtain ⟨a, ha⟩ := hlive d (by simp)
      have hd : 0 < T.compare k (T.key a) := by
        rw [← not_le, ← hdown d (by simp) _ (keyAt_of_eq ha), Bool.not_eq_true]
        exact hstop' d List.getLast?_concat a ha
      have hbefore := (List.pairwise_append.mp (List.pairwise_append.mp hsorted).1).2.2
      intro t ht k' hk'
      rcases List.mem_append.mp ht with ht | ht
      · have hlt := hbefore t ht d (List.mem_singleton_self d) k' hk' _ (keyAt_of_eq ha)
        have hle : T.compare (T.key a) k ≤ 0 := by
          rw [@ThreeWay.swap _ T.compare _ k]
          omega
        exact ThreeWay.pos_of_lt (ThreeWay.lt_of_lt_of_le hlt hle)
      · obtain rfl := List.mem_singleton.mp ht
        obtain rfl := Option.some.inj ((keyAt_of_eq ha).symm.trans hk')
        exact hd
  · intro t ht k' hk'
    rcases List.mem_append.mp ht with ht | ht
    · obtain ⟨a, ha⟩ := hlive s' (by simp)
      have hs' : T.compare k (T.key a) ≤ 0 := by
        rcases hfirst with rfl | hfirst
        · exact absurd ht List.not_mem_nil
        · exact (hdown s' (by simp) _ (keyAt_of_eq ha)).mp (hfirst a ha)
      have hbefore := (List.pairwise_append.mp hsorted).2.1
      exact ThreeWay.lt_of_le_of_lt hs' (List.rel_of_pairwise_cons hbefore
        (List.mem_append_left ds ht) _ (keyAt_of_eq ha) _ hk')
    · exact hds t ht k' hk'

theorem Holds.nodup (hT : T.Holds h table dom chains) (b : β) : (chains b).Nodup :=
  nodup_of_sorted (hT.linked b) (hT.sorted b)

theorem Holds.mem_of_key (hT : T.Holds h table dom chains) {r : ρ} {k : κ} (hr : dom r)
    (hk : T.keyAt h r = some k) : r ∈ chains (T.hash k) :=
  (hT.mem_iff _ r).mpr ⟨hr, by rw [hk, Option.map_some]⟩

theorem Holds.eq_of_key (hT : T.Holds h table dom chains) {r s : ρ} {k : κ} (hr : dom r) (hs : dom s)
    (hkr : T.keyAt h r = some k) (hks : T.keyAt h s = some k) : r = s := by
  obtain ⟨as, bs, hchain⟩ := List.append_of_mem (hT.mem_of_key hr hkr)
  have hsorted := hT.sorted (T.hash k)
  have hmem := hT.mem_of_key hs hks
  rw [hchain] at hsorted hmem
  have hsplit := List.pairwise_append.mp hsorted
  rcases List.mem_append.mp hmem with hmem | hmem
  · exact absurd (hsplit.2.2 s hmem r List.mem_cons_self) (not_before_of_keyAt hks hkr)
  · rcases List.mem_cons.mp hmem with heq | hmem
    · exact heq.symm
    · exact absurd (List.rel_of_pairwise_cons hsplit.2.1 hmem) (not_before_of_keyAt hkr hks)

theorem Holds.congr (hT : T.Holds h table dom chains)
    (hview : ∀ r, dom r → (h' r).map T.links.view = (h r).map T.links.view)
    (hkey : ∀ r, dom r → T.keyAt h' r = T.keyAt h r) : T.Holds h' table dom chains := by
  have hdom : ∀ {b r}, r ∈ chains b → dom r := fun hr => ((hT.mem_iff _ _).mp hr).1
  exact {
    linked := fun b => (hT.linked b).congr fun r hr => hview r (hdom hr)
    sorted := fun b => (hT.sorted b).imp_of_mem fun hr hs hbefore => by
      rw [Before, hkey _ (hdom hr), hkey _ (hdom hs)]
      exact hbefore
    mem_iff := fun b r => by
      rw [hT.mem_iff]
      exact and_congr_right fun hr => by rw [hkey r hr]
    finger_none := hT.finger_none
    finger_mem := hT.finger_mem }

theorem Holds.sameData {F : LinkFields ρ α} (hT : T.Holds h table dom chains) (hdata : F.SameData h h')
    (hview : ∀ a, T.links.view (F.data a) = T.links.view a) (hkey : ∀ a, T.key (F.data a) = T.key a) :
    T.Holds h' table dom chains :=
  hT.congr (fun r _ => hdata.map hview r) fun r _ => hdata.map hkey r

theorem Holds.free [DecidableEq ρ] {x : ρ} (hT : T.Holds h table dom chains) (hdom : ¬dom x) :
    T.Holds (h.free x) table dom chains := by
  have hkeep : ∀ t, dom t → h.free x t = h t := by
    intro t ht
    refine Function.update_of_ne ?_ _ _
    rintro rfl
    exact hdom ht
  exact hT.congr (fun t ht => by rw [hkeep t ht]) fun t ht => congrArg _ (hkeep t ht)

/-! ### The operations keep the table -/

theorem pairwise_middle {R : ρ → ρ → Prop} {as bs : List ρ} {x : ρ} (hpairwise : (as ++ bs).Pairwise R)
    (has : ∀ t ∈ as, R t x) (hbs : ∀ t ∈ bs, R x t) : (as ++ x :: bs).Pairwise R := by
  obtain ⟨has', hbs', hcross⟩ := List.pairwise_append.mp hpairwise
  refine List.pairwise_append.mpr ⟨has', List.pairwise_cons.mpr ⟨hbs, hbs'⟩, fun t ht u hu => ?_⟩
  rcases List.mem_cons.mp hu with rfl | hu
  · exact has t ht
  · exact hcross t ht u hu

section Operations

variable [DecidableEq β]

theorem Holds.setFinger (hT : T.Holds h table dom chains) {b : β} {r : ρ} (hr : r ∈ chains b) :
    T.Holds h (Function.update table b (some r)) dom chains where
  linked := hT.linked
  sorted := hT.sorted
  mem_iff := hT.mem_iff
  finger_none b' hb' := by
    by_cases hb : b' = b
    · subst hb
      simp at hb'
    · exact hT.finger_none b' (by rwa [Function.update_of_ne hb] at hb')
  finger_mem b' r' hr' := by
    by_cases hb : b' = b
    · subst hb
      rw [Function.update_self] at hr'
      exact Option.some.inj hr' ▸ hr
    · exact hT.finger_mem b' r' (by rwa [Function.update_of_ne hb] at hr')

/-- Looking a key up finds its record, whatever the buckets point to. -/
theorem Holds.find {fuel : Nat} (hT : T.Holds h table dom chains)
    (hfuel : ∀ b, (chains b).length ≤ fuel) (k : κ) :
    ∃ found table', T.find fuel h table k = some (found, table') ∧ T.Holds h table' dom chains ∧
      ∀ r, found = some r ↔ dom r ∧ T.keyAt h r = some k := by
  cases htable : table (T.hash k) with
  | none =>
      refine ⟨none, table, by simp [ChainTable.find, htable], hT, fun r => ?_⟩
      refine iff_of_false (by simp) fun hr => ?_
      have hmem := hT.mem_of_key hr.1 hr.2
      rw [hT.finger_none _ htable] at hmem
      exact List.not_mem_nil hmem
  | some rp =>
      obtain ⟨as, s, bs, hseek, hchain, has, hbs⟩ := seek_spec (T.compare k · ≥ 0)
        (T.compare k · ≤ 0) k (hT.linked _) (hT.sorted _) (hT.finger_mem _ rp htable) (hfuel _)
        (by simp) (by simp)
      have hs : s ∈ chains (T.hash k) := by simp [hchain]
      obtain ⟨a, ha⟩ := (hT.linked _).live hs
      -- Only the record where the search stops can have the key.
      have honly : ∀ r, dom r → T.keyAt h r = some k → r = s := by
        intro r hr hk
        have hmem := hT.mem_of_key hr hk
        rw [hchain] at hmem
        have hself := @ThreeWay.refl _ T.compare _ k
        rcases List.mem_append.mp hmem with hmem | hmem
        · exact absurd hself (has r hmem k hk).ne'
        · rcases List.mem_cons.mp hmem with heq | hmem
          · exact heq
          · exact absurd hself (hbs r hmem k hk).ne
      by_cases hkey : T.compare k (T.key a) = 0
      · refine ⟨some s, _, ?_, hT.setFinger hs, fun r => ⟨fun hr => ?_, fun hr => ?_⟩⟩
        · simp [ChainTable.find, htable, hseek, ha, hkey]
        · obtain rfl := Option.some.inj hr
          refine ⟨((hT.mem_iff _ _).mp hs).1, ?_⟩
          rw [keyAt_of_eq ha, T.eq_of_compare hkey]
        · rw [honly r hr.1 hr.2]
      · refine ⟨none, table, by simp [ChainTable.find, htable, hseek, ha, hkey], hT, fun r => ?_⟩
        refine iff_of_false (by simp) fun hr => hkey ?_
        obtain rfl := honly r hr.1 hr.2
        obtain rfl := Option.some.inj ((keyAt_of_eq ha).symm.trans hr.2)
        exact @ThreeWay.refl _ T.compare _ _

variable {x : ρ} {a : α}

theorem Holds.insert (hT : T.Holds h table dom chains) (hx : h x = some a) (as bs : List ρ)
    (hchain : chains (T.hash (T.key a)) = as ++ bs) (hdata : T.links.SameData h h')
    (hseg : T.links.Seg h' none (as ++ x :: bs) none)
    (hframe : ∀ t, t ≠ x → t ∉ as ++ bs → h' t = h t) (hdom : ¬dom x)
    (has : ∀ t ∈ as, T.Before h t x) (hbs : ∀ t ∈ bs, T.Before h x t) :
    T.Holds h' (Function.update table (T.hash (T.key a)) (some x)) (fun r => r = x ∨ dom r)
      (Function.update chains (T.hash (T.key a)) (as ++ x :: bs)) := by
  have hkey := keyAt_of_sameData hdata
  have hother : ∀ b, b ≠ T.hash (T.key a) → ∀ t ∈ chains b, h' t = h t := by
    intro b hb t ht
    obtain ⟨hmem, hhash⟩ := (hT.mem_iff b t).mp ht
    refine hframe t (fun heq => hdom (heq ▸ hmem)) fun ht' => hb ?_
    rw [← hchain, hT.mem_iff] at ht'
    exact Option.some.inj (hhash.symm.trans ht'.2)
  constructor
  · intro b
    by_cases hb : b = T.hash (T.key a)
    · subst hb
      rwa [Function.update_self]
    · rw [Function.update_of_ne hb]
      exact (hT.linked b).congr_heap (hother b hb)
  · intro b
    rw [before_of_keyAt hkey]
    by_cases hb : b = T.hash (T.key a)
    · subst hb
      rw [Function.update_self]
      exact pairwise_middle (hchain ▸ hT.sorted _) has hbs
    · rw [Function.update_of_ne hb]
      exact hT.sorted b
  · intro b r
    have hxhash : (T.keyAt h x).map T.hash = some (T.hash (T.key a)) := by
      rw [keyAt_of_eq hx, Option.map_some]
    rw [hkey]
    by_cases hb : b = T.hash (T.key a)
    · subst hb
      rw [Function.update_self, List.perm_middle.mem_iff, List.mem_cons, ← hchain, hT.mem_iff]
      constructor
      · rintro (rfl | hr)
        · exact ⟨Or.inl rfl, hxhash⟩
        · exact ⟨Or.inr hr.1, hr.2⟩
      · rintro ⟨rfl | hr, hhash⟩
        · exact Or.inl rfl
        · exact Or.inr ⟨hr, hhash⟩
    · rw [Function.update_of_ne hb, hT.mem_iff]
      refine and_congr_left fun hhash => ⟨Or.inr, fun hr => hr.resolve_left ?_⟩
      rintro rfl
      exact hb (Option.some.inj (hhash.symm.trans hxhash))
  · intro b hnone
    by_cases hb : b = T.hash (T.key a)
    · subst hb
      simp at hnone
    · rw [Function.update_of_ne hb] at hnone ⊢
      exact hT.finger_none b hnone
  · intro b r hr
    by_cases hb : b = T.hash (T.key a)
    · subst hb
      rw [Function.update_self] at hr ⊢
      simp [Option.some.inj hr]
    · rw [Function.update_of_ne hb] at hr ⊢
      exact hT.finger_mem b r hr

variable [DecidableEq ρ]

/-- A record with a new key is linked in, and only links change. -/
theorem Holds.link {fuel : Nat} (hT : T.Holds h table dom chains)
    (hfuel : ∀ b, (chains b).length ≤ fuel) (hx : h x = some a) (hdom : ¬dom x)
    (hnew : ∀ r, dom r → T.keyAt h r ≠ some (T.key a)) :
    ∃ h' table' chains', T.link fuel h table x = some (h', table') ∧ T.links.SameData h h' ∧
      T.Holds h' table' (fun r => r = x ∨ dom r) chains' := by
  have hxkey := keyAt_of_eq (T := T) hx
  have hnotmem : x ∉ chains (T.hash (T.key a)) := fun hmem => hdom ((hT.mem_iff _ x).mp hmem).1
  cases htable : table (T.hash (T.key a)) with
  | none =>
      have hchain := hT.finger_none _ htable
      have hwrite := Heap.write_of_eq (f := T.links.data) hx
      have hdata : T.links.SameData h _ := LinkFields.SameData.write (fun b => by simp) hwrite
      have hlink : T.link fuel h table x = some (Function.update h x (some (T.links.data a)),
          Function.update table (T.hash (T.key a)) (some x)) := by
        simp [ChainTable.link, hx, htable, hwrite]
      have hseg : T.links.Seg (Function.update h x (some (T.links.data a))) none ([] ++ [x]) none :=
        ⟨⟨_, Function.update_self _ _ _, by simp, by simp⟩, trivial⟩
      exact ⟨_, _, _, hlink, hdata, hT.insert hx [] [] hchain hdata hseg
        (fun t ht _ => Function.update_of_ne ht _ _) hdom (by simp) (by simp)⟩
  | some rp =>
      -- The key is new, so a strict search goes the same way as one that stops at an equal key.
      have hne : ∀ t ∈ chains (T.hash (T.key a)), ∀ k' ∈ T.keyAt h t,
          T.compare (T.key a) k' ≠ 0 := by
        intro t ht k' hk' heq
        rw [← T.eq_of_compare heq] at hk'
        exact hnew t ((hT.mem_iff _ t).mp ht).1 hk'
      obtain ⟨as, s, bs, hseek, hchain, has, hbs⟩ := seek_spec (T.compare (T.key a) · > 0)
        (T.compare (T.key a) · < 0) (T.key a) (hT.linked _) (hT.sorted _)
        (hT.finger_mem _ rp htable) (hfuel _)
        (fun t ht k' hk' => by have := hne t ht k' hk'; simp; omega)
        (fun t ht k' hk' => by have := hne t ht k' hk'; simp; omega)
      have hseg := hT.linked (T.hash (T.key a))
      have hnodup := hT.nodup (T.hash (T.key a))
      have hs : s ∈ chains (T.hash (T.key a)) := by simp [hchain]
      obtain ⟨b, hb⟩ := hseg.live hs
      have hbefore : ∀ t ∈ as, T.Before h t x := by
        intro t ht k hk k' hk'
        obtain rfl := Option.some.inj (hxkey.symm.trans hk')
        exact ThreeWay.lt_of_pos (has t ht k hk)
      have hafter : ∀ t ∈ bs, T.Before h x t := by
        intro t ht k hk k' hk'
        obtain rfl := Option.some.inj (hxkey.symm.trans hk)
        exact hbs t ht k' hk'
      rw [hchain] at hseg hnodup hnotmem
      by_cases hlt : T.compare (T.key b) (T.key a) < 0
      · obtain ⟨h', hinsert, hseg', hframe⟩ := hseg.insertAfter hnodup hx hnotmem
        have hdata := LinkFields.SameData.insertAfter hinsert
        rw [List.append_cons] at hchain hseg' hframe
        have hlink : T.link fuel h table x =
            some (h', Function.update table (T.hash (T.key a)) (some x)) := by
          simp [ChainTable.link, hx, htable, hseek, hb, hlt, hinsert]
        refine ⟨h', _, _, hlink, hdata, hT.insert hx (as ++ [s]) bs hchain hdata hseg' hframe hdom
          (fun t ht => ?_) hafter⟩
        · rcases List.mem_append.mp ht with ht | ht
          · exact hbefore t ht
          · obtain rfl := List.mem_singleton.mp ht
            intro k hk k' hk'
            obtain rfl := Option.some.inj ((keyAt_of_eq hb).symm.trans hk)
            obtain rfl := Option.some.inj (hxkey.symm.trans hk')
            exact hlt
      · obtain ⟨h', hinsert, hseg', hframe⟩ := hseg.insertBefore hnodup hx hnotmem
        have hdata := LinkFields.SameData.insertBefore hinsert
        have hlink : T.link fuel h table x =
            some (h', Function.update table (T.hash (T.key a)) (some x)) := by
          simp [ChainTable.link, hx, htable, hseek, hb, hlt, hinsert]
        refine ⟨h', _, _, hlink, hdata, hT.insert hx as (s :: bs) hchain hdata hseg' hframe hdom
          hbefore (fun t ht => ?_)⟩
        · rcases List.mem_cons.mp ht with rfl | ht
          · intro k hk k' hk'
            obtain rfl := Option.some.inj (hxkey.symm.trans hk)
            obtain rfl := Option.some.inj ((keyAt_of_eq hb).symm.trans hk')
            refine ThreeWay.lt_of_pos (lt_of_le_of_ne (not_lt.mp hlt) fun heq => ?_)
            exact hne t hs _ (keyAt_of_eq hb) (ThreeWay.eq_symm heq.symm)
          · exact hafter t ht

/-- A record is taken out, and only links change. -/
theorem Holds.unlink (hT : T.Holds h table dom chains) (hx : h x = some a) (hdom : dom x) :
    ∃ h' table' chains', T.unlink h table x = some (h', table') ∧ T.links.SameData h h' ∧
      T.Holds h' table' (fun r => dom r ∧ r ≠ x) chains' := by
  have hxkey := keyAt_of_eq (T := T) hx
  obtain ⟨as, bs, hchain⟩ := List.append_of_mem (hT.mem_of_key hdom hxkey)
  have hseg := hT.linked (T.hash (T.key a))
  have hsorted := hT.sorted (T.hash (T.key a))
  have hnodup := hT.nodup (T.hash (T.key a))
  rw [hchain] at hseg hsorted hnodup
  obtain ⟨h', hdetach, hseg', hframe⟩ := hseg.detach hnodup
  have hdata := LinkFields.SameData.detach hdetach
  obtain ⟨_, ⟨a', ha', hprevious, hnext⟩, _⟩ := LinkFields.seg_append.mp hseg
  obtain rfl := Option.some.inj (hx.symm.trans ha')
  rw [Option.or_none] at hprevious hnext
  have hmem : ∀ r, r ∈ as ++ bs ↔ r ∈ as ++ x :: bs ∧ r ≠ x := by
    intro r
    have hnotmem := (List.nodup_cons.mp (List.nodup_middle.mp hnodup)).1
    rw [List.perm_middle.mem_iff, List.mem_cons]
    constructor
    · exact fun hr => ⟨Or.inr hr, fun heq => hnotmem (heq ▸ hr)⟩
    · exact fun hr => hr.1.resolve_left hr.2
  have hunlink : T.unlink h table x = some (h', if table (T.hash (T.key a)) = some x then
      Function.update table (T.hash (T.key a)) (as.getLast?.or bs.head?) else table) := by
    simp [ChainTable.unlink, hx, hdetach, hprevious, hnext]
  refine ⟨h', _, Function.update chains (T.hash (T.key a)) (as ++ bs), hunlink, hdata, ?_⟩
  constructor
  · intro b
    by_cases hb : b = T.hash (T.key a)
    · subst hb
      rwa [Function.update_self]
    · rw [Function.update_of_ne hb]
      refine (hT.linked b).congr_heap fun t ht => hframe t fun ht' => hb ?_
      have ht'' := ((hmem t).mp ht').1
      rw [← hchain, hT.mem_iff] at ht''
      exact Option.some.inj ((((hT.mem_iff b t).mp ht).2).symm.trans ht''.2)
  · intro b
    rw [before_of_keyAt (keyAt_of_sameData hdata)]
    by_cases hb : b = T.hash (T.key a)
    · subst hb
      rw [Function.update_self]
      exact hsorted.sublist (List.Sublist.append_left (List.sublist_cons_self x bs) as)
    · rw [Function.update_of_ne hb]
      exact hT.sorted b
  · intro b r
    rw [keyAt_of_sameData hdata]
    by_cases hb : b = T.hash (T.key a)
    · subst hb
      rw [Function.update_self, hmem, ← hchain, hT.mem_iff, and_right_comm]
    · rw [Function.update_of_ne hb, hT.mem_iff]
      refine and_congr_left fun hhash => ⟨fun hr => ⟨hr, ?_⟩, And.left⟩
      rintro rfl
      rw [hxkey, Option.map_some] at hhash
      exact hb (Option.some.inj hhash).symm
  · intro b hnone
    by_cases hb : b = T.hash (T.key a)
    · subst hb
      rw [Function.update_self]
      split_ifs at hnone with hfinger
      · rw [Function.update_self, Option.or_eq_none_iff] at hnone
        simpa using hnone
      · have hnil := hT.finger_none _ hnone
        simp [hchain] at hnil
    · rw [Function.update_of_ne hb]
      refine hT.finger_none b ?_
      split_ifs at hnone with hfinger
      · rwa [Function.update_of_ne hb] at hnone
      · exact hnone
  · intro b r hr
    by_cases hb : b = T.hash (T.key a)
    · subst hb
      rw [Function.update_self]
      split_ifs at hr with hfinger
      · rw [Function.update_self, Option.or_eq_some_iff] at hr
        rcases hr with hlast | ⟨_, hhead⟩
        · exact List.mem_append_left bs (List.mem_of_mem_getLast? hlast)
        · exact List.mem_append_right as (List.mem_of_mem_head? hhead)
      · refine (hmem r).mpr ⟨hchain ▸ hT.finger_mem _ r hr, ?_⟩
        rintro rfl
        exact hfinger hr
    · rw [Function.update_of_ne hb]
      refine hT.finger_mem b r ?_
      split_ifs at hr with hfinger
      · rwa [Function.update_of_ne hb] at hr
      · exact hr

end Operations

end ChainTable
