import EtherApe.Datastructs.Colors
import EtherApe.Datastructs.ServicesLoaded
import Mathlib.Data.Finset.Dedup
import Mathlib.Data.Finset.Card

/-!
# Mapped colors and cycled colors

What a color vector lists, read off the vector alone: the protocols of each color, and the colors without
protocols. A listed protocol has its last color and is preferred; the others take the colors without
protocols in turn, and keep what they took.
-/

namespace EtherApe.Colors

open Printf Services

/-! ### What a vector lists -/

section Listing

variable (gdkColorParse : List UInt8 → Option GdkColor)

/-- The entries that are not skipped: a color and the field of its protocols. -/
def coloredFields : GdkColor → List (List UInt8) → List (GdkColor × List UInt8)
  | _, [] => []
  | stale, entry :: entries =>
      match gStrsplitSet entry colorDelimiters with
      | [] => coloredFields stale entries
      | color :: rest =>
          let gdkColor := (gdkColorParse color).getD stale
          (gdkColor, rest.headD []) :: coloredFields gdkColor entries

def listedProtos (fields : List (GdkColor × List UInt8)) : List (List UInt8 × GdkColor) :=
  fields.flatMap fun field => (protosOf field.2).map fun proto => (proto, field.1)

def freeColors (fields : List (GdkColor × List UInt8)) : List GdkColor :=
  (fields.filter fun field => field.2 = []).map Prod.fst

end Listing

/-- The last color that is listed for a protocol. -/
def lastListed (listed : List (List UInt8 × GdkColor)) (name : List UInt8) : Option GdkColor :=
  (listed.reverse.find? fun pair => pair.1 = name).map Prod.snd

theorem lastListed_nil (name : List UInt8) : lastListed [] name = none := rfl

theorem lastListed_append (xs ys : List (List UInt8 × GdkColor)) (name : List UInt8) :
    lastListed (xs ++ ys) name = (lastListed ys name).or (lastListed xs name) := by
  rw [lastListed, List.reverse_append, List.find?_append, Option.map_or]
  rfl

theorem lastListed_singleton (pair : List UInt8 × GdkColor) (name : List UInt8) :
    lastListed [pair] name = if pair.1 = name then some pair.2 else none := by
  rw [lastListed, List.reverse_singleton, List.find?_singleton]
  by_cases h : pair.1 = name <;> simp [h]

/-! ### Reading a vector -/

def mappedItem (color : GdkColor) : ColorHashItem := ⟨color, true⟩

def freeItem (color : GdkColor) : ColorHashItem := ⟨color, false⟩

def ProtoColors.table (s : ProtoColors) : ProtoTable := s.protohash.getD ProtoTable.new

/-- What reading some fields has done. -/
structure Reads (listed : List (List UInt8 × GdkColor)) (free : List GdkColor) (s s' : ProtoColors) :
    Prop where
  table : ∀ name, s'.table name = ((lastListed listed name).map mappedItem).or (s.table name)
  list : s'.cycleColorList = (free.map freeItem).reverse ++ s.cycleColorList
  current : s'.currentCycle = if free = [] then s.currentCycle else some 0
  hash : s.protohash.isSome ∨ free ≠ [] → s'.protohash.isSome
  services : s'.services = s.services

theorem Reads.refl (s : ProtoColors) : Reads [] [] s s := by
  refine ⟨fun name => ?_, rfl, rfl, fun h => ?_, rfl⟩
  · rw [lastListed_nil]
    rfl
  · exact h.resolve_right fun hne => hne rfl

theorem Reads.trans {l₁ l₂ : List (List UInt8 × GdkColor)} {f₁ f₂ : List GdkColor}
    {s₁ s₂ s₃ : ProtoColors} (h₁ : Reads l₁ f₁ s₁ s₂) (h₂ : Reads l₂ f₂ s₂ s₃) :
    Reads (l₁ ++ l₂) (f₁ ++ f₂) s₁ s₃ := by
  refine ⟨fun name => ?_, ?_, ?_, fun h => ?_, h₂.services.trans h₁.services⟩
  · rw [h₂.table, h₁.table, lastListed_append, Option.map_or, Option.or_assoc]
  · rw [h₂.list, h₁.list, List.map_append, List.reverse_append, List.append_assoc]
  · rw [h₂.current, h₁.current]
    by_cases hf₂ : f₂ = []
    · rw [if_pos hf₂, hf₂, List.append_nil]
    · rw [if_neg hf₂, if_neg (List.append_ne_nil_of_right_ne_nil f₁ hf₂)]
  · apply h₂.hash
    by_cases hf₂ : f₂ = []
    · left
      apply h₁.hash
      rw [hf₂, List.append_nil] at h
      exact h
    · exact Or.inr hf₂

theorem reads_set_proto {name : List UInt8} (hname : name ≠ []) (color : GdkColor) (s : ProtoColors) :
    Reads [(name, color)] [] s (protohashSet (some name) color s) := by
  have hset : protohashSet (some name) color s =
      { s with protohash := some (s.table.insert name (mappedItem color)) } := if_pos hname
  rw [hset]
  refine ⟨fun other => ?_, rfl, rfl, fun _ => rfl, rfl⟩
  rw [lastListed_singleton]
  by_cases hother : name = other
  · rw [if_pos hother]
    exact if_pos hother.symm
  · rw [if_neg hother]
    exact if_neg (Ne.symm hother)

theorem reads_set_free {protoname : Option (List UInt8)} (hname : protoname.getD [] = []) (color : GdkColor)
    (s : ProtoColors) : Reads [] [color] s (protohashSet protoname color s) := by
  have hset : protohashSet protoname color s =
      { s with
        protohash := some s.table
        cycleColorList := freeItem color :: s.cycleColorList
        currentCycle := some 0 } := if_neg (not_not.mpr hname)
  rw [hset]
  refine ⟨fun other => ?_, rfl, rfl, fun _ => rfl, rfl⟩
  rw [lastListed_nil]
  rfl

theorem reads_setProtos (color : GdkColor) {protos : List (List UInt8)} (h : ∀ proto ∈ protos, proto ≠ [])
    (s : ProtoColors) :
    Reads (protos.map fun proto => (proto, color)) [] s (setProtos color protos s) := by
  induction protos generalizing s with
  | nil => exact Reads.refl s
  | cons proto protos ih =>
      rw [List.forall_mem_cons] at h
      exact (reads_set_proto h.1 color s).trans (ih h.2 _)

section Vector

variable (gdkColorParse : List UInt8 → Option GdkColor)

theorem protosOf_ne_nil (field : List UInt8) : ∀ proto ∈ protosOf field, proto ≠ [] := by
  intro proto hmem
  simpa using (List.mem_filter.mp hmem).2

/-- Reading a vector does what the fields of its entries say. -/
theorem reads_foldl (entries : List (List UInt8)) (stale : GdkColor) (s : ProtoColors) :
    Reads (listedProtos (coloredFields gdkColorParse stale entries))
      (freeColors (coloredFields gdkColorParse stale entries)) s
      (entries.foldl (readEntry gdkColorParse) (stale, s)).2 := by
  induction entries generalizing stale s with
  | nil => exact Reads.refl s
  | cons entry entries ih =>
      rw [List.foldl_cons, readEntry, coloredFields]
      cases gStrsplitSet entry colorDelimiters with
      | nil => exact ih stale s
      | cons color rest =>
          dsimp only
          have hfree : ∀ field fields, field.2 = [] →
              listedProtos (field :: fields) = [] ++ listedProtos fields ∧
                freeColors (field :: fields) = [field.1] ++ freeColors fields := by
            intro field fields hfield
            constructor
            · rw [listedProtos, List.flatMap_cons, hfield]
              rfl
            · rw [freeColors, List.filter_cons_of_pos (by rw [hfield]; rfl)]
              rfl
          have hmapped : ∀ field fields, field.2 ≠ [] →
              freeColors (field :: fields) = [] ++ freeColors fields := by
            intro field fields hfield
            rw [freeColors, List.filter_cons_of_neg (by simpa using hfield)]
            rfl
          cases rest with
          | nil =>
              obtain ⟨hlisted, hcolors⟩ := hfree ((gdkColorParse color).getD stale, [])
                (coloredFields gdkColorParse ((gdkColorParse color).getD stale) entries) rfl
              dsimp only [List.headD_nil, List.head?_nil]
              rw [hlisted, hcolors]
              exact (reads_set_free rfl _ s).trans (ih _ _)
          | cons field others =>
              dsimp only [List.headD_cons, List.head?_cons]
              by_cases hfield : field = []
              · obtain ⟨hlisted, hcolors⟩ := hfree ((gdkColorParse color).getD stale, field)
                  (coloredFields gdkColorParse ((gdkColorParse color).getD stale) entries) hfield
                rw [if_pos hfield, hlisted, hcolors]
                exact (@reads_set_free (some field) hfield _ s).trans (ih _ _)
              · rw [if_neg hfield, hmapped _ _ hfield, listedProtos, List.flatMap_cons]
                exact (reads_setProtos _ (protosOf_ne_nil field) s).trans (ih _ _)

end Vector

/-- The colors that are cycled, a grey one if there is no other. -/
def cycleColors (grey : GdkColor) (free : List GdkColor) : List GdkColor :=
  if free = [] then [grey] else free

theorem cycleColors_pos (grey : GdkColor) (free : List GdkColor) :
    0 < (cycleColors grey free).length := by
  rw [cycleColors]
  split
  · exact Nat.one_pos
  · next h => exact List.length_pos_iff_ne_nil.mpr h

/-! ### Requests -/

def Request.protoname : Request → Option (List UInt8)
  | .color name => some name
  | .resetCycle => none
  | .servicesInit _ => none

def requested (requests : List Request) : List (List UInt8) := requests.filterMap Request.protoname

theorem requested_append (xs ys : List Request) : requested (xs ++ ys) = requested xs ++ requested ys :=
  List.filterMap_append

theorem run_append (xs ys : List Request) (s : ProtoColors) :
    run (xs ++ ys) s = (run xs s).bind (run ys) := by
  induction xs generalizing s with
  | nil => rfl
  | cons request xs ih =>
      rw [List.cons_append, run, run, Option.bind_assoc]
      congr 1
      funext s
      exact ih s

theorem run_concat (requests : List Request) (request : Request) (s : ProtoColors) :
    run (requests ++ [request]) s = (run requests s).bind (step request) := by
  rw [run_append]
  congr 1
  funext s
  exact Option.bind_fun_some _

/-- Every loaded service has the flag that `flag` gives its name. -/
def Flagged (flag : List UInt8 → Bool) (s : ProtoColors) : Prop :=
  ∀ trees, s.services = some trees → ∀ transport port svc,
    servicesFind trees transport port = some svc → svc.preferred = flag svc.name

theorem servicesFind_filled {flag : List UInt8 → Bool} {trees : ServiceTrees} {transport : Transport}
    {port : UInt16} {svc : Services.PortService}
    (h : servicesFind (servicesFillPreferred flag trees) transport port = some svc) :
    svc.preferred = flag svc.name := by
  have hfilled : ∀ services : SortedTree servicesPortCmp Services.PortService,
      (servicesPrefTrv flag services).lookup port = some svc → svc.preferred = flag svc.name := by
    intro services hfound
    rw [servicesPrefTrv_lookup, Option.map_eq_some_iff] at hfound
    obtain ⟨stored, _, rfl⟩ := hfound
    rfl
  cases transport with
  | tcp => exact hfilled trees.tcpServices h
  | udp => exact hfilled trees.udpServices h

/-- The state when the vector has been read and some protocols have been seen. -/
structure Assigning (listed : List (List UInt8 × GdkColor)) (cycle : List GdkColor)
    (seen : List (List UInt8)) (place : Nat) (s : ProtoColors) : Prop where
  hash : s.protohash = some s.table
  mapped : ∀ name color, lastListed listed name = some color → s.table name = some (mappedItem color)
  other : ∀ name, lastListed listed name = none → (s.table name = none ↔ name ∉ seen)
  free : ∀ name item, lastListed listed name = none → s.table name = some item → item.preferred = false
  list : s.cycleColorList = cycle.map freeItem
  current : s.currentCycle = some place
  inside : place < cycle.length
  flags : Flagged (fun name => (lastListed listed name).isSome) s

section Assigning

variable {listed : List (List UInt8 × GdkColor)} {cycle : List GdkColor} {seen : List (List UInt8)}
  {place : Nat} {s : ProtoColors}

theorem protohashColor_of_some (hhash : s.protohash = some s.table) {name : List UInt8}
    {item : ColorHashItem} (h : s.table name = some item) :
    protohashColor name s = some (s, item.color) := by
  rw [protohashColor, hhash]
  dsimp only
  rw [h]

theorem Assigning.color_eq (h : Assigning listed cycle seen place s) {name : List UInt8} {item : ColorHashItem}
    (hitem : s.table name = some item) : protohashColor name s = some (s, item.color) :=
  protohashColor_of_some h.hash hitem

theorem Assigning.advanced (h : Assigning listed cycle seen place s) :
    s.advanced place = some ((place + 1) % cycle.length) := by
  have hlength : s.cycleColorList.length = cycle.length := by
    rw [h.list, List.length_map]
  have hplace := h.inside
  rw [ProtoColors.advanced, hlength]
  by_cases hnext : place + 1 < cycle.length
  · rw [if_pos hnext, Nat.mod_eq_of_lt hnext]
  · have hlast : place + 1 = cycle.length := by omega
    have hne : s.cycleColorList ≠ [] := by
      apply List.length_pos_iff_ne_nil.mp
      rw [hlength]
      exact Nat.zero_lt_of_lt hplace
    rw [if_neg hnext, hlast, Nat.mod_self, ProtoColors.firstCycle, if_neg hne]

theorem Assigning.color_new (h : Assigning listed cycle seen place s) {name : List UInt8}
    (hlisted : lastListed listed name = none) (hseen : name ∉ seen) :
    ∃ s', protohashColor name s = some (s', cycle.get ⟨place, h.inside⟩) ∧
      Assigning listed cycle (seen ++ [name]) ((place + 1) % cycle.length) s' ∧
      (∀ other item, s.table other = some item → s'.table other = some item) ∧
      s'.table name = some (freeItem (cycle.get ⟨place, h.inside⟩)) := by
  have hnone : s.table name = none := (h.other name hlisted).mpr hseen
  have hnode : s.cycleColorList[place]? = some (freeItem (cycle.get ⟨place, h.inside⟩)) := by
    rw [h.list, List.getElem?_map, List.getElem?_eq_getElem h.inside]
    rfl
  refine ⟨{ s with
    protohash := some (s.table.insert name (freeItem (cycle.get ⟨place, h.inside⟩)))
    currentCycle := s.advanced place }, ?_, ⟨rfl, ?_, ?_, ?_, h.list, h.advanced, ?_, h.flags⟩, ?_,
    if_pos rfl⟩
  · rw [protohashColor, h.hash]
    dsimp only
    rw [hnone]
    dsimp only
    rw [h.current]
    dsimp only
    rw [hnode]
    rfl
  · intro other color hother
    have hne : other ≠ name := by
      rintro rfl
      exact Option.some_ne_none color (hother.symm.trans hlisted)
    exact (if_neg hne).trans (h.mapped other color hother)
  · intro other hother
    by_cases hname : other = name
    · have hinserted : s.table.insert name (freeItem (cycle.get ⟨place, h.inside⟩)) other = some _ :=
        if_pos hname
      refine iff_of_false ?_ fun hnot => hnot (by rw [hname]; simp)
      rw [ProtoColors.table, Option.getD_some, hinserted]
      exact Option.some_ne_none _
    · have hkept : s.table.insert name (freeItem (cycle.get ⟨place, h.inside⟩)) other = s.table other :=
        if_neg hname
      rw [ProtoColors.table, Option.getD_some, hkept, h.other other hother]
      simp [hname]
  · intro other item hother hitem
    by_cases hname : other = name
    · have hinserted : s.table.insert name (freeItem (cycle.get ⟨place, h.inside⟩)) other = some _ :=
        if_pos hname
      rw [ProtoColors.table, Option.getD_some, hinserted] at hitem
      rw [← Option.some.inj hitem]
      rfl
    · have hkept : s.table.insert name (freeItem (cycle.get ⟨place, h.inside⟩)) other = s.table other :=
        if_neg hname
      rw [ProtoColors.table, Option.getD_some, hkept] at hitem
      exact h.free other item hother hitem
  · exact Nat.mod_lt _ (Nat.zero_lt_of_lt h.inside)
  · intro other item hitem
    have hne : other ≠ name := by
      rintro rfl
      exact Option.some_ne_none item (hitem.symm.trans hnone)
    exact (if_neg hne).trans hitem

theorem Assigning.isPreferred (h : Assigning listed cycle seen place s) (name : List UInt8) :
    s.table.isPreferred name = (lastListed listed name).isSome := by
  rw [ProtoTable.isPreferred]
  cases hlisted : lastListed listed name with
  | some color => rw [h.mapped name color hlisted]; rfl
  | none =>
      cases hitem : s.table name with
      | none => rfl
      | some item => exact h.free name item hlisted hitem

theorem Assigning.color_old (h : Assigning listed cycle seen place s) {name : List UInt8} {item : ColorHashItem}
    (hitem : s.table name = some item) : Assigning listed cycle (seen ++ [name]) place s := by
  refine { h with other := fun other hother => ?_ }
  rw [h.other other hother, List.mem_append, List.mem_singleton, not_or]
  refine (and_iff_left_of_imp fun hseen => ?_).symm
  rintro rfl
  exact Option.some_ne_none item (hitem.symm.trans ((h.other other hother).mpr hseen))

theorem Assigning.reset (h : Assigning listed cycle seen place s) :
    Assigning listed cycle seen 0 (protohashResetCycle s) := by
  have hpos := Nat.zero_lt_of_lt h.inside
  have hne : s.cycleColorList ≠ [] := by
    apply List.length_pos_iff_ne_nil.mp
    rw [h.list, List.length_map]
    exact hpos
  exact { h with current := if_neg hne, inside := hpos }

theorem fillPreferred_of_hash (hhash : s.protohash = some s.table) :
    ∃ s', fillPreferred s = some s' ∧ s'.protohash = s.protohash ∧ s'.cycleColorList = s.cycleColorList ∧
      s'.currentCycle = s.currentCycle ∧ Flagged s.table.isPreferred s' := by
  rw [fillPreferred]
  cases hservices : s.services with
  | none =>
      refine ⟨s, rfl, rfl, rfl, rfl, ?_⟩
      intro trees htrees
      exact absurd (hservices.symm.trans htrees) (Option.some_ne_none trees).symm
  | some trees =>
      rw [hhash]
      refine ⟨_, rfl, rfl, rfl, rfl, ?_⟩
      intro filled hfilled transport port svc hfound
      rw [← Option.some.inj hfilled] at hfound
      exact servicesFind_filled hfound

theorem Assigning.load (h : Assigning listed cycle seen place s) (file : Option (UInt16 × List UInt8)) :
    ∃ s', loadServices file s = some s' ∧ s'.table = s.table ∧ Assigning listed cycle seen place s' := by
  unfold loadServices
  by_cases hloaded : s.services.isSome
  · rw [if_pos hloaded]
    exact ⟨s, rfl, rfl, h⟩
  rw [if_neg hloaded]
  cases file with
  | none => exact ⟨s, rfl, rfl, h⟩
  | some source =>
      obtain ⟨s', hfill, hhash, hlist, hcurrent, hflags⟩ :=
        @fillPreferred_of_hash { s with services := some (readServices source.1 source.2) } h.hash
      have htable : s'.table = s.table := congrArg (fun hash => hash.getD ProtoTable.new) hhash
      refine ⟨s', hfill, htable, ⟨?_, ?_, ?_, ?_, hlist.trans h.list, hcurrent.trans h.current, h.inside, ?_⟩⟩
      · rw [htable, hhash]
        exact h.hash
      · rw [htable]
        exact h.mapped
      · rw [htable]
        exact h.other
      · rw [htable]
        exact h.free
      · intro trees htrees transport port svc hfound
        exact (hflags trees htrees transport port svc hfound).trans (h.isPreferred svc.name)

/-- The place of the current color behind a request. -/
def nextPlace (listed : List (List UInt8 × GdkColor)) (length : Nat) (seen : List (List UInt8)) (place : Nat) :
    Request → Nat
  | .color name =>
      if lastListed listed name = none ∧ name ∉ seen then (place + 1) % length else place
  | .resetCycle => 0
  | .servicesInit _ => place

/-- No request fails, and no protocol loses its color. -/
theorem Assigning.step (h : Assigning listed cycle seen place s) (request : Request) :
    ∃ s', step request s = some s' ∧
      Assigning listed cycle (seen ++ requested [request])
        (nextPlace listed cycle.length seen place request) s' ∧
      ∀ other item, s.table other = some item → s'.table other = some item := by
  cases request with
  | resetCycle =>
      refine ⟨_, rfl, ?_, fun _ _ hitem => hitem⟩
      rw [show requested [.resetCycle] = [] from rfl, List.append_nil]
      exact h.reset
  | servicesInit file =>
      obtain ⟨s', hload, htable, hassigning⟩ := h.load file
      rw [show requested [.servicesInit file] = [] from rfl, List.append_nil]
      exact ⟨s', hload, hassigning, fun other item hitem => by rw [htable]; exact hitem⟩
  | color name =>
      rw [show requested [.color name] = [name] from rfl, Colors.step, nextPlace]
      by_cases hnew : lastListed listed name = none ∧ name ∉ seen
      · obtain ⟨s', hcolor, hassigning, hkept, _⟩ := h.color_new hnew.1 hnew.2
        rw [if_pos hnew, hcolor]
        exact ⟨s', rfl, hassigning, hkept⟩
      · rw [if_neg hnew]
        have hitem : ∃ item, s.table name = some item := by
          cases hlisted : lastListed listed name with
          | some color => exact ⟨_, h.mapped name color hlisted⟩
          | none =>
              apply Option.ne_none_iff_exists'.mp
              intro hnone
              exact hnew ⟨hlisted, (h.other name hlisted).mp hnone⟩
        obtain ⟨item, hitem⟩ := hitem
        rw [h.color_eq hitem]
        exact ⟨s, rfl, h.color_old hitem, fun _ _ hother => hother⟩

theorem Assigning.run (h : Assigning listed cycle seen place s) (requests : List Request) :
    ∃ s' place', run requests s = some s' ∧
      Assigning listed cycle (seen ++ requested requests) place' s' ∧
      ∀ other item, s.table other = some item → s'.table other = some item := by
  induction requests generalizing seen place s with
  | nil =>
      rw [requested, List.filterMap_nil, List.append_nil]
      exact ⟨s, place, rfl, h, fun _ _ hitem => hitem⟩
  | cons request requests ih =>
      obtain ⟨s', hstep, hassigning, hkept⟩ := h.step request
      obtain ⟨s'', place', hrun, hassigning', hkept'⟩ := ih hassigning
      rw [List.append_assoc, ← requested_append] at hassigning'
      refine ⟨s'', place', ?_, hassigning', fun other item hitem => hkept' other item (hkept other item hitem)⟩
      rw [Colors.run, hstep]
      exact hrun

end Assigning

/-! ### Rotation -/

/-- The protocols without a listed color that are asked for in `after`, and not in `before`. -/
def newlySeen (listed : List (List UInt8 × GdkColor)) (before after : List Request) :
    Finset (List UInt8) :=
  ((requested after).filter fun name => lastListed listed name = none ∧ name ∉ requested before).toFinset

section Rotation

variable {listed : List (List UInt8 × GdkColor)} {cycle : List GdkColor} {before after : List Request}

theorem mem_newlySeen {name : List UInt8} : name ∈ newlySeen listed before after ↔
    name ∈ requested after ∧ lastListed listed name = none ∧ name ∉ requested before := by
  rw [newlySeen, List.mem_toFinset, List.mem_filter, decide_eq_true_iff]

theorem newlySeen_concat (request : Request) :
    newlySeen listed before (after ++ [request]) =
      newlySeen listed before after ∪ newlySeen listed before [request] := by
  rw [newlySeen, requested_append, List.filter_append, List.toFinset_append]
  rfl

theorem nextPlace_eq {place₀ place : Nat} {request : Request} (hreset : request ≠ .resetCycle)
    (hplace : place = (place₀ + (newlySeen listed before after).card) % cycle.length) :
    nextPlace listed cycle.length (requested (before ++ after)) place request =
      (place₀ + (newlySeen listed before (after ++ [request])).card) % cycle.length := by
  rw [newlySeen_concat]
  cases request with
  | resetCycle => exact absurd rfl hreset
  | servicesInit file =>
      rw [show newlySeen listed before [.servicesInit file] = ∅ from rfl, Finset.union_empty]
      exact hplace
  | color name =>
      rw [nextPlace]
      have hsingle : ∀ other, other ∈ newlySeen listed before [.color name] ↔
          other = name ∧ lastListed listed other = none ∧ other ∉ requested before := by
        intro other
        rw [mem_newlySeen, show requested [.color name] = [name] from rfl, List.mem_singleton]
      have hseen : name ∈ requested (before ++ after) ↔ name ∈ requested before ∨ name ∈ requested after := by
        rw [requested_append, List.mem_append]
      by_cases hnew : lastListed listed name = none ∧ name ∉ requested (before ++ after)
      · have hone : newlySeen listed before [.color name] = {name} := by
          ext other
          rw [hsingle, Finset.mem_singleton]
          refine and_iff_left_of_imp ?_
          rintro rfl
          exact ⟨hnew.1, fun hbefore => hnew.2 (hseen.mpr (Or.inl hbefore))⟩
        have hfresh : name ∉ newlySeen listed before after := by
          rw [mem_newlySeen]
          exact fun hmem => hnew.2 (hseen.mpr (Or.inr hmem.1))
        rw [if_pos hnew, hone, Finset.union_comm, Finset.singleton_union, Finset.card_insert_of_notMem hfresh,
          hplace, Nat.mod_add_mod, Nat.add_assoc]
      · have hsubset : newlySeen listed before [.color name] ⊆ newlySeen listed before after := by
          intro other hmem
          obtain ⟨rfl, hlisted, hbefore⟩ := (hsingle other).mp hmem
          rw [mem_newlySeen]
          refine ⟨?_, hlisted, hbefore⟩
          by_contra hafter
          exact hnew ⟨hlisted, fun hmem => (hseen.mp hmem).elim hbefore hafter⟩
        rw [if_neg hnew, Finset.union_eq_left.mpr hsubset]
        exact hplace

/-- Without a reset every newly seen protocol moves the current color on by one. -/
theorem Assigning.rotate {place : Nat} {s : ProtoColors}
    (h : Assigning listed cycle (requested before) place s) (hreset : .resetCycle ∉ after) :
    ∃ s', Colors.run after s = some s' ∧
      Assigning listed cycle (requested (before ++ after))
        ((place + (newlySeen listed before after).card) % cycle.length) s' := by
  induction after using List.reverseRecOn with
  | nil =>
      refine ⟨s, rfl, ?_⟩
      rw [List.append_nil, show newlySeen listed before [] = ∅ from rfl, Finset.card_empty, Nat.add_zero,
        Nat.mod_eq_of_lt h.inside]
      exact h
  | append_singleton after request ih =>
      rw [List.mem_append, List.mem_singleton, not_or] at hreset
      obtain ⟨s', hrun, hassigning⟩ := ih hreset.1
      obtain ⟨s'', hstep, hnext, _⟩ := hassigning.step request
      refine ⟨s'', ?_, ?_⟩
      · rw [run_concat, hrun]
        exact hstep
      · rw [nextPlace_eq (Ne.symm hreset.2) rfl, ← requested_append, List.append_assoc] at hnext
        exact hnext

end Rotation

/-! ### The state behind a vector -/

section Vector

variable (gdkColorParse : List UInt8 → Option GdkColor) {grey : GdkColor}
  (hgrey : gdkColorParse (lit "#7f7f7f") = some grey)

include hgrey in
theorem finishCycle_spec {listed : List (List UInt8 × GdkColor)} {free : List GdkColor}
    {s₀ s : ProtoColors} (h : Reads listed free (protohashClear s₀) s) (gdkColor : GdkColor) :
    (finishCycle gdkColorParse gdkColor s).protohash = some (finishCycle gdkColorParse gdkColor s).table ∧
      (∀ name, (finishCycle gdkColorParse gdkColor s).table name = (lastListed listed name).map mappedItem) ∧
      (finishCycle gdkColorParse gdkColor s).cycleColorList = (cycleColors grey free).map freeItem ∧
      (finishCycle gdkColorParse gdkColor s).currentCycle = some ((cycleColors grey free).length - 1) := by
  have htable : ∀ name, s.table name = (lastListed listed name).map mappedItem := by
    intro name
    rw [h.table]
    exact Option.or_none
  have hlist : s.cycleColorList = (free.map freeItem).reverse := by
    rw [h.list]
    exact List.append_nil _
  have hempty : s.cycleColorList = [] ↔ free = [] := by
    rw [hlist, List.reverse_eq_nil_iff, List.map_eq_nil_iff]
  rw [finishCycle, cycleColors]
  by_cases hfree : free = []
  · rw [if_pos (hempty.mpr hfree), if_pos hfree, hgrey, Option.getD_some]
    have hset := @reads_set_free none rfl grey s
    refine ⟨rfl, ?_, ?_, rfl⟩
    · intro name
      rw [hset.table, lastListed_nil, Option.map_none, Option.none_or, htable]
    · rw [hset.list, hlist, hfree]
      rfl
  · rw [if_neg (mt hempty.mp hfree), if_neg hfree]
    obtain ⟨table, hhash⟩ := Option.isSome_iff_exists.mp (h.hash (Or.inr hfree))
    refine ⟨?_, htable, ?_, ?_⟩
    · rw [ProtoColors.table, hhash]
      rfl
    · rw [hlist, List.reverse_reverse]
    · rw [h.current, if_neg hfree, hlist, Option.map_some, List.length_reverse, List.length_map, Nat.sub_zero]

include hgrey in
/-- Reading a vector does not fail, and leaves the last of the cycled colors as the current one. -/
theorem assigning_read (uninit : GdkColor) (colors : List (List UInt8)) (s₀ : ProtoColors) :
    ∃ s, protohashReadPrefvect gdkColorParse uninit colors s₀ = some s ∧
      Assigning (listedProtos (coloredFields gdkColorParse uninit colors))
        (cycleColors grey (freeColors (coloredFields gdkColorParse uninit colors))) []
        ((cycleColors grey (freeColors (coloredFields gdkColorParse uninit colors))).length - 1) s := by
  have hreads := reads_foldl gdkColorParse colors uninit (protohashClear s₀)
  obtain ⟨hhash, htable, hlist, hcurrent⟩ := finishCycle_spec gdkColorParse hgrey hreads
    (colors.foldl (readEntry gdkColorParse) (uninit, protohashClear s₀)).1
  obtain ⟨s, hfill, hhash', hlist', hcurrent', hflags⟩ := fillPreferred_of_hash hhash
  have htable' : s.table = (finishCycle gdkColorParse _ _).table :=
    congrArg (fun hash => hash.getD ProtoTable.new) hhash'
  have hpos := cycleColors_pos grey (freeColors (coloredFields gdkColorParse uninit colors))
  refine ⟨s, hfill, ⟨?_, ?_, ?_, ?_, hlist'.trans hlist, hcurrent'.trans hcurrent, by omega, ?_⟩⟩
  · rw [htable', hhash']
    exact hhash
  · intro name color hlisted
    rw [htable', htable, hlisted]
    rfl
  · intro name hlisted
    rw [htable', htable, hlisted]
    exact iff_of_true rfl List.not_mem_nil
  · intro name item hlisted hitem
    rw [htable', htable, hlisted] at hitem
    exact absurd hitem (Option.some_ne_none item).symm
  · intro trees htrees transport port svc hfound
    rw [hflags trees htrees transport port svc hfound, ProtoTable.isPreferred, htable]
    dsimp only
    cases lastListed (listedProtos (coloredFields gdkColorParse uninit colors)) svc.name <;> rfl

end Vector

/-- What the colors of the protocols are to be behind a vector that lists some protocols and cycles the
other colors. -/
structure ColorsAssigned (listed : List (List UInt8 × GdkColor)) (cycle : List GdkColor)
    (s : ProtoColors) : Prop where
  answered : ∀ requests, ∃ s', run requests s = some s' ∧ ∀ name, protohashColor name s' ≠ none
  mapped : ∀ requests name color, lastListed listed name = some color →
    colorAfter s requests name = some color
  preferred : ∀ requests s', run requests s = some s' → ∀ name,
    protohashIsPreferred s' name = some (lastListed listed name).isSome
  kept : ∀ before after name, colorAfter s (before ++ .color name :: after) name = colorAfter s before name
  first : ∀ requests name, .resetCycle ∉ requests → lastListed listed name = none →
    name ∉ requested requests →
      colorAfter s requests name =
        cycle[(cycle.length - 1 + (newlySeen listed [] requests).card) % cycle.length]?
  restarted : ∀ before after name, .resetCycle ∉ after → lastListed listed name = none →
    name ∉ requested before → name ∉ requested after →
      colorAfter s (before ++ .resetCycle :: after) name =
        cycle[(newlySeen listed before after).card % cycle.length]?
  flags : ∀ requests s', run requests s = some s' → ∀ trees, s'.services = some trees →
    ∀ transport port svc, servicesFind trees transport port = some svc →
      protohashIsPreferred s' svc.name = some svc.preferred

section Assigned

variable {listed : List (List UInt8 × GdkColor)} {cycle : List GdkColor} {place : Nat} {s : ProtoColors}

theorem colorAfter_of_run {requests : List Request} {s' : ProtoColors} (hrun : run requests s = some s')
    (name : List UInt8) : colorAfter s requests name = (protohashColor name s').map Prod.snd := by
  rw [colorAfter, hrun]
  rfl

theorem Assigning.isPreferred_eq {seen : List (List UInt8)} (h : Assigning listed cycle seen place s)
    (name : List UInt8) : protohashIsPreferred s name = some (lastListed listed name).isSome := by
  rw [protohashIsPreferred, h.hash, Option.map_some, h.isPreferred]

/-- A protocol has a color once it has been asked for. -/
theorem Assigning.answer {seen : List (List UInt8)} (h : Assigning listed cycle seen place s)
    (name : List UInt8) :
    ∃ s' item, protohashColor name s = some (s', item.color) ∧ s'.table name = some item := by
  cases hitem : s.table name with
  | some item => exact ⟨s, item, h.color_eq hitem, hitem⟩
  | none =>
      cases hlisted : lastListed listed name with
      | some color =>
          exact absurd ((h.mapped name color hlisted).symm.trans hitem) (Option.some_ne_none _)
      | none =>
          obtain ⟨s', hcolor, _, _, hstored⟩ := h.color_new hlisted ((h.other name hlisted).mp hitem)
          exact ⟨s', _, hcolor, hstored⟩

theorem Assigning.newColor {seen : List (List UInt8)} (h : Assigning listed cycle seen place s)
    {name : List UInt8} (hlisted : lastListed listed name = none) (hseen : name ∉ seen) :
    (protohashColor name s).map Prod.snd = cycle[place]? := by
  obtain ⟨s', hcolor, _⟩ := h.color_new hlisted hseen
  rw [hcolor, List.getElem?_eq_getElem h.inside]
  rfl

theorem Assigning.colorsAssigned (h : Assigning listed cycle [] (cycle.length - 1) s) :
    ColorsAssigned listed cycle s := by
  constructor
  · intro requests
    obtain ⟨s', place', hrun, hassigning, _⟩ := h.run requests
    refine ⟨s', hrun, fun name => ?_⟩
    obtain ⟨_, _, hcolor, _⟩ := hassigning.answer name
    rw [hcolor]
    exact Option.some_ne_none _
  · intro requests name color hlisted
    obtain ⟨s', place', hrun, hassigning, _⟩ := h.run requests
    rw [colorAfter_of_run hrun, hassigning.color_eq (hassigning.mapped name color hlisted)]
    rfl
  · intro requests s' hrun name
    obtain ⟨s'', place', hrun', hassigning, _⟩ := h.run requests
    obtain rfl := Option.some.inj (hrun'.symm.trans hrun)
    exact hassigning.isPreferred_eq name
  · intro before after name
    obtain ⟨s₁, place₁, hrun₁, hassigning₁, _⟩ := h.run before
    obtain ⟨s₂, item, hcolor, hstored⟩ := hassigning₁.answer name
    have hrun₂ : Colors.run (before ++ [.color name]) s = some s₂ := by
      rw [run_concat, hrun₁, Option.bind_some, Colors.step, hcolor]
      rfl
    obtain ⟨s₂', place₂, hrun₂', hassigning₂, _⟩ := h.run (before ++ [.color name])
    obtain rfl := Option.some.inj (hrun₂'.symm.trans hrun₂)
    obtain ⟨s₃, place₃, hrun₃, hassigning₃, hkept⟩ := hassigning₂.run after
    have hrun : Colors.run (before ++ .color name :: after) s = some s₃ := by
      rw [← List.singleton_append, ← List.append_assoc, run_append, hrun₂]
      exact hrun₃
    rw [colorAfter_of_run hrun, colorAfter_of_run hrun₁, hassigning₃.color_eq (hkept name item hstored), hcolor]
    rfl
  · intro requests name hreset hlisted hseen
    have hempty : Assigning listed cycle (requested []) (cycle.length - 1) s := h
    obtain ⟨s', hrun, hassigning⟩ := hempty.rotate hreset
    rw [colorAfter_of_run hrun, hassigning.newColor hlisted hseen]
  · intro before after name hreset hlisted hbefore hafter
    obtain ⟨s₁, place₁, hrun₁, hassigning₁, _⟩ := h.run before
    rw [List.nil_append] at hassigning₁
    obtain ⟨s₂, hrun₂, hassigning₂⟩ := hassigning₁.reset.rotate hreset
    have hrun : Colors.run (before ++ .resetCycle :: after) s = some s₂ := by
      rw [run_append, hrun₁]
      exact hrun₂
    have hseen : name ∉ requested (before ++ after) := by
      rw [requested_append, List.mem_append]
      exact fun hmem => hmem.elim hbefore hafter
    rw [colorAfter_of_run hrun, hassigning₂.newColor hlisted hseen, Nat.zero_add]
  · intro requests s' hrun trees htrees transport port svc hfound
    obtain ⟨s'', place', hrun', hassigning, _⟩ := h.run requests
    obtain rfl := Option.some.inj (hrun'.symm.trans hrun)
    rw [hassigning.isPreferred_eq, hassigning.flags trees htrees transport port svc hfound]

end Assigned

/-! ### Before a vector is read -/

/-- There is no hash, and no service is loaded. -/
structure Unhashed (s : ProtoColors) : Prop where
  hash : s.protohash = none
  services : ∀ trees, s.services = some trees → ∀ transport port, servicesFind trees transport port = none

theorem Unhashed.step {s s' : ProtoColors} (h : Unhashed s) {request : Request}
    (hstep : step request s = some s') : Unhashed s' := by
  cases request with
  | color name =>
      rw [Colors.step, protohashColor, h.hash] at hstep
      exact absurd hstep (Option.some_ne_none s').symm
  | resetCycle =>
      obtain rfl := Option.some.inj hstep
      exact ⟨h.hash, h.services⟩
  | servicesInit file =>
      change loadServices file s = some s' at hstep
      unfold loadServices at hstep
      by_cases hloaded : s.services.isSome
      · rw [if_pos hloaded] at hstep
        obtain rfl := Option.some.inj hstep
        exact h
      rw [if_neg hloaded] at hstep
      cases file with
      | none =>
          obtain rfl := Option.some.inj hstep
          exact h
      | some source =>
          dsimp only at hstep
          rw [fillPreferred] at hstep
          dsimp only at hstep
          rw [h.hash] at hstep
          dsimp only at hstep
          split at hstep
          · next hempty =>
            obtain rfl := Option.some.inj hstep
            refine ⟨rfl, fun trees htrees transport port => ?_⟩
            rw [← Option.some.inj htrees]
            have hnone : ∀ services : SortedTree servicesPortCmp Services.PortService,
                services.entries.isEmpty = true → services.lookup port = none := by
              intro services hentries
              rw [SortedTree.lookup, List.isEmpty_iff.mp hentries]
              rfl
            cases transport with
            | tcp => exact hnone _ hempty.2
            | udp => exact hnone _ hempty.1
          · exact absurd hstep (Option.some_ne_none s').symm

theorem Unhashed.run {s s' : ProtoColors} (h : Unhashed s) {requests : List Request}
    (hrun : run requests s = some s') : Unhashed s' := by
  induction requests generalizing s with
  | nil =>
      obtain rfl := Option.some.inj hrun
      exact h
  | cons request requests ih =>
      rw [Colors.run, Option.bind_eq_some_iff] at hrun
      obtain ⟨s₁, hstep, hrest⟩ := hrun
      exact ih (h.step hstep) hrest

/-- Behind every vector the protocols have the colors that it lists for them or take their turn among the
others, and the flags of the services always agree with the hash. -/
theorem protohashReadPrefvect_colors (gdkColorParse : List UInt8 → Option GdkColor) (grey : GdkColor)
    (hgrey : gdkColorParse (lit "#7f7f7f") = some grey) (uninit : GdkColor) (colors : List (List UInt8))
    (s₀ : ProtoColors) :
    (∃ s, protohashReadPrefvect gdkColorParse uninit colors s₀ = some s ∧
      ColorsAssigned (listedProtos (coloredFields gdkColorParse uninit colors))
        (cycleColors grey (freeColors (coloredFields gdkColorParse uninit colors))) s) ∧
    ∀ requests s, run requests ProtoColors.initial = some s → ∀ trees, s.services = some trees →
      ∀ transport port svc, servicesFind trees transport port = some svc →
        protohashIsPreferred s svc.name = some svc.preferred := by
  constructor
  · obtain ⟨s, hread, hassigning⟩ := assigning_read gdkColorParse hgrey uninit colors s₀
    exact ⟨s, hread, hassigning.colorsAssigned⟩
  · intro requests s hrun trees htrees transport port svc hfound
    have hinitial : Unhashed ProtoColors.initial :=
      ⟨rfl, fun trees htrees => absurd htrees (Option.some_ne_none trees).symm⟩
    rw [(hinitial.run hrun).services trees htrees transport port] at hfound
    exact absurd hfound (Option.some_ne_none svc).symm

/-- Parses three colors. -/
def parseSome (spec : List UInt8) : Option GdkColor :=
  if spec = lit "#ff0000" then some ⟨65535, 0, 0⟩
  else if spec = lit "#0000ff" then some ⟨0, 0, 65535⟩
  else if spec = lit "#7f7f7f" then some ⟨32639, 32639, 32639⟩
  else none

/-- A vector with a listed protocol and one free color. -/
theorem protohashReadPrefvect_colors_two :
    ∃ s, protohashReadPrefvect parseSome ⟨0, 0, 0⟩ [lit "#ff0000;WWW,HTTP", lit "#0000ff"]
        ProtoColors.initial = some s ∧
      ColorsAssigned
        (listedProtos (coloredFields parseSome ⟨0, 0, 0⟩ [lit "#ff0000;WWW,HTTP", lit "#0000ff"]))
        (cycleColors ⟨32639, 32639, 32639⟩
          (freeColors (coloredFields parseSome ⟨0, 0, 0⟩ [lit "#ff0000;WWW,HTTP", lit "#0000ff"]))) s :=
  (protohashReadPrefvect_colors parseSome ⟨32639, 32639, 32639⟩ (by decide +kernel) ⟨0, 0, 0⟩
    [lit "#ff0000;WWW,HTTP", lit "#0000ff"] ProtoColors.initial).1

end EtherApe.Colors
