import EtherApe.Export
import EtherApe.NodeNames
import EtherApe.Util.AddressTexts

/-!
# Texts of node ids

The text by which a node goes until it has a name, and its element in a dump, tell which node it is. The
text alone does so among the nodes of one type: that of an address and a port may also be the text of an
IPv6 address with one group more. In the dump the types have tags.
-/

namespace EtherApe

open Printf

/-- An address as packets have it: one of IPv4 leaves the rest of the union empty. -/
def Address.Stored (ad : Address) : Prop :=
  ad.type = afInet ∧ (∀ i : Fin 20, 8 ≤ i.val → ad i = 0) ∨ ad.type = afInet6

def NodeId.Stored (id : NodeId) : Prop :=
  match id.nodeType with
  | .ip => id.addr.ip.Stored
  | .tcp => id.addr.tcp4Host.Stored
  | _ => True

/-! ### Addresses -/

theorem Address.eq_of_type {a b : Address} (h : a.type = b.type) {i : Fin 20} (hi : i.val < 4) :
    a i = b i := by
  have hbytes (c : Address) (j : Fin 20) : (c j).toNat < 256 := (c j).toNat_lt
  rw [type, type] at h
  have hcases : i = 0 ∨ i = 1 ∨ i = 2 ∨ i = 3 := by omega
  have ha0 := hbytes a 0
  have ha1 := hbytes a 1
  have ha2 := hbytes a 2
  have hb0 := hbytes b 0
  have hb1 := hbytes b 1
  have hb2 := hbytes b 2
  apply UInt8.toNat_inj.mp
  rcases hcases with rfl | rfl | rfl | rfl
  · omega
  · omega
  · omega
  · omega

theorem Address.eq_of_addrBytes {a b : Address} {len : Nat} (hlen : 4 + len ≤ 20)
    (htype : a.type = b.type) (h : a.addrBytes len = b.addrBytes len) {i : Fin 20}
    (hi : i.val < 4 + len) : a i = b i := by
  have hsplit (c : Address) : c.firstBytes (4 + len) = c.firstBytes 4 ++ c.addrBytes len := by
    have htake : (c.firstBytes (4 + len)).take 4 = c.firstBytes 4 := by
      rw [Octets.firstBytes, Octets.firstBytes, List.take_take, Nat.min_eq_left (Nat.le_add_right 4 len)]
    rw [← htake, addrBytes, List.take_append_drop]
  have hfirst : a.firstBytes 4 = b.firstBytes 4 :=
    (Octets.firstBytes_eq_iff (by decide)).mpr fun j hj => eq_of_type htype hj
  have hall : a.firstBytes (4 + len) = b.firstBytes (4 + len) := by rw [hsplit a, hsplit b, hfirst, h]
  exact (Octets.firstBytes_eq_iff hlen).mp hall i hi

theorem Address.length_addrBytes (ad : Address) {len : Nat} (hlen : 4 + len ≤ 20) :
    (ad.addrBytes len).length = len := by
  rw [addrBytes, List.length_drop, Octets.firstBytes_length hlen, Nat.add_sub_cancel_left]

theorem addressToStr_inj {a b : Address} (ha : a.Stored) (hb : b.Stored)
    (h : addressToStr a = addressToStr b) : a = b := by
  have hne : afInet6 ≠ afInet := by decide
  have hipv4 {ad : Address} (htype : ad.type = afInet) : addressToStr ad = ipv4ToStr (ad.addrBytes 4) :=
    if_pos htype
  have hipv6 {ad : Address} (htype : ad.type = afInet6) :
      addressToStr ad = ipv6ToStr (ad.addrBytes 16) := by
    rw [addressToStr, if_neg (htype ▸ hne), if_pos htype]
  have hlength4 (ad : Address) : (ad.addrBytes 4).length = 4 := ad.length_addrBytes (by decide)
  have hlength16 (ad : Address) : (ad.addrBytes 16).length = 16 := ad.length_addrBytes (by decide)
  -- Only the texts of IPv6 have colons.
  have hdistinct {ad ad' : Address} (htype : ad.type = afInet) (htype' : ad'.type = afInet6) :
      addressToStr ad ≠ addressToStr ad' := by
    intro heq
    rw [hipv4 htype, hipv6 htype'] at heq
    exact colon_not_mem_ipv4ToStr (heq ▸ colon_mem_ipv6ToStr (hlength16 ad'))
  cases ha with
  | inl ha =>
      obtain ⟨hatype, hazero⟩ := ha
      cases hb with
      | inl hb =>
          obtain ⟨hbtype, hbzero⟩ := hb
          rw [hipv4 hatype, hipv4 hbtype] at h
          have hbytes := ipv4ToStr_inj (List.ne_nil_of_length_eq_add_one (hlength4 a))
            (List.ne_nil_of_length_eq_add_one (hlength4 b)) h
          funext i
          by_cases hi : i.val < 4 + 4
          · exact Address.eq_of_addrBytes (by decide) (hatype.trans hbtype.symm) hbytes hi
          · rw [hazero i (not_lt.mp hi), hbzero i (not_lt.mp hi)]
      | inr hbtype => exact absurd h (hdistinct hatype hbtype)
  | inr hatype =>
      cases hb with
      | inl hb => exact absurd h.symm (hdistinct hb.1 hatype)
      | inr hbtype =>
          rw [hipv6 hatype, hipv6 hbtype] at h
          have hbytes := ipv6ToStr_inj (hlength16 a) (hlength16 b) h
          funext i
          exact Address.eq_of_addrBytes (by decide) (hatype.trans hbtype.symm) hbytes (by omega)

/-! ### Ids -/

theorem NodeAddr.ip_eq_iff {a b : NodeAddr} : a.ip = b.ip ↔ a.firstBytes 20 = b.firstBytes 20 := by
  rw [Octets.firstBytes_eq_iff (by decide)]
  constructor
  · intro h i hi
    exact congrFun h ⟨i.val, hi⟩
  · intro h
    funext i
    exact h ⟨i.val, by omega⟩ i.isLt

theorem NodeAddr.tcp4_eq_iff {a b : NodeAddr} :
    a.tcp4Host = b.tcp4Host ∧ a.tcp4Port = b.tcp4Port ↔ a.firstBytes 22 = b.firstBytes 22 := by
  rw [Octets.firstBytes_eq_iff (by decide)]
  constructor
  · rintro ⟨hhost, hport⟩ i _
    have ha := (a 20).toNat_lt
    have hb := (b 20).toNat_lt
    rw [tcp4Port, tcp4Port] at hport
    by_cases hi : i.val < 20
    · exact congrFun hhost ⟨i.val, hi⟩
    · have hcases : i = 20 ∨ i = 21 := by omega
      apply UInt8.toNat_inj.mp
      rcases hcases with rfl | rfl
      · omega
      · omega
  · intro h
    refine ⟨?_, ?_⟩
    · funext i
      exact h ⟨i.val, by omega⟩ (by simp; omega)
    · rw [tcp4Port, tcp4Port, h 20 (by decide), h 21 (by decide)]

theorem append_cons_inj_of_not_mem {α : Type*} {p p' q q' : List α} {c : α} (hp : c ∉ p) (hp' : c ∉ p')
    (h : p ++ c :: q = p' ++ c :: q') : p = p' ∧ q = q' := by
  have hshorter {r r' t t' : List α} (hr' : c ∉ r') (heq : r ++ c :: t = r' ++ c :: t')
      (hlen : r.length ≤ r'.length) : r = r' := by
    obtain ⟨more, rfl⟩ : r <+: r' := List.prefix_of_prefix_length_le
      ⟨c :: t, rfl⟩ (heq ▸ ⟨c :: t', rfl⟩) hlen
    cases more with
    | nil => rw [List.append_nil]
    | cons d more =>
        rw [List.append_assoc, List.append_cancel_left_eq] at heq
        have hhead : c = d := (List.cons.inj heq).1
        exact absurd (hhead ▸ List.mem_append_right r List.mem_cons_self) hr'
  have heq : p = p' := by
    rcases Nat.le_total p.length p'.length with hlen | hlen
    · exact hshorter hp' h hlen
    · exact (hshorter hp h.symm hlen).symm
  subst heq
  exact ⟨rfl, (List.cons.inj (List.append_cancel_left h)).2⟩

/-- The port is behind the last colon. -/
theorem append_cons_inj_of_not_mem_right {α : Type*} {p p' q q' : List α} {c : α} (hq : c ∉ q)
    (hq' : c ∉ q') (h : p ++ c :: q = p' ++ c :: q') : p = p' ∧ q = q' := by
  have hreverse := congrArg List.reverse h
  simp only [List.reverse_append, List.reverse_cons, List.append_assoc, List.singleton_append] at hreverse
  obtain ⟨hback, hfront⟩ := append_cons_inj_of_not_mem (by simpa using hq) (by simpa using hq') hreverse
  exact ⟨List.reverse_inj.mp hfront, List.reverse_inj.mp hback⟩

theorem nodeIdStr_inj {a b : NodeId} (ha : a.Stored) (hb : b.Stored) (htype : a.nodeType = b.nodeType)
    (h : nodeIdStr a = nodeIdStr b) : nodeIdCompare a b = 0 := by
  refine nodeIdCompare_eq_zero_iff.mpr ⟨htype, ?_⟩
  obtain ⟨t, a⟩ := a
  obtain ⟨t', b⟩ := b
  obtain rfl : t = t' := htype
  have hlength (c : NodeAddr) : c.eth.length = 5 + 1 := Octets.firstBytes_length (by decide)
  cases t with
  | apemodeDefault => rfl
  | link6 =>
      exact etherToStr_inj (List.ne_nil_of_length_eq_add_one (hlength a))
        (List.ne_nil_of_length_eq_add_one (hlength b)) h
  | ip => exact NodeAddr.ip_eq_iff.mp (addressToStr_inj ha hb h)
  | tcp =>
      have hcolon (n : Nat) : 58 ∉ decimal n :=
        not_mem_of_isHexDigit isHexDigit_of_mem_decimal (by decide)
      have hsplit (c : NodeAddr) : nodeIdStr ⟨.tcp, c⟩ =
          addressToStr c.tcp4Host ++ 58 :: decimal c.tcp4Port := List.append_assoc _ _ _
      rw [hsplit a, hsplit b] at h
      obtain ⟨hhost, hport⟩ := append_cons_inj_of_not_mem_right (hcolon _) (hcolon _) h
      exact NodeAddr.tcp4_eq_iff.mp ⟨addressToStr_inj ha hb hhost, decimal_inj hport⟩

namespace Export

/-! ### Elements -/

/-- The parts of the element of an id: the tag, the text in it and what follows. -/
def idParts (id : NodeId) : Option (List UInt8 × List UInt8 × List UInt8) :=
  match id.nodeType with
  | .apemodeDefault => none
  | .link6 => some (lit "link", etherToStr id.addr.eth, [])
  | .ip => some (typeToStr id.addr.ip, addressToStr id.addr.ip, [])
  | .tcp =>
      some (typeToStr id.addr.tcp4Host, addressToStr id.addr.tcp4Host,
        lit " " ++ xmltag (lit "port") (decimal id.addr.tcp4Port))

theorem xmltag_append_inj {tag tag' text text' rest rest' : List UInt8} (htag : 62 ∉ tag)
    (htag' : 62 ∉ tag') (htext : 60 ∉ text) (htext' : 60 ∉ text')
    (h : xmltag tag text ++ rest = xmltag tag' text' ++ rest') :
    tag = tag' ∧ text = text' ∧ rest = rest' := by
  have hbytes (n m r : List UInt8) : xmltag n m ++ r =
      60 :: (n ++ 62 :: (m ++ 60 :: (47 :: (n ++ 62 :: (10 :: r))))) := by
    have hlits : lit "<" = [60] ∧ lit ">" = [62] ∧ lit "</" = [60, 47] ∧ lit ">\n" = [62, 10] := by
      decide +kernel
    obtain ⟨hopen, hclose, hend, hlast⟩ := hlits
    rw [xmltag, hopen, hclose, hend, hlast]
    simp only [List.append_assoc, List.cons_append, List.nil_append]
  rw [hbytes, hbytes] at h
  obtain ⟨rfl, hafter⟩ := append_cons_inj_of_not_mem htag htag' (List.cons.inj h).2
  obtain ⟨rfl, hclosing⟩ := append_cons_inj_of_not_mem htext htext' hafter
  have hlast := List.append_cancel_left (List.cons.inj hclosing).2
  exact ⟨rfl, rfl, (List.cons.inj (List.cons.inj hlast).2).2⟩

theorem addressToStr_plain {ad : Address} (h : ad.Stored) :
    62 ∉ typeToStr ad ∧ 60 ∉ addressToStr ad := by
  have htypes : 62 ∉ lit "IP" ∧ 62 ∉ lit "IPv6" := by decide +kernel
  cases h with
  | inl h =>
      rw [typeToStr, addressToStr, if_pos h.1, if_pos h.1]
      refine ⟨htypes.1, fun hmem => ?_⟩
      rcases mem_ipv4ToStr hmem with hb | hb
      · exact absurd hb (by decide)
      · exact absurd hb (by decide)
  | inr h =>
      have hne : ad.type ≠ afInet := by rw [h]; decide
      rw [typeToStr, addressToStr, if_neg hne, if_neg hne, if_pos h, if_pos h]
      refine ⟨htypes.2, fun hmem => ?_⟩
      rcases mem_ipv6ToStr hmem with hb | hb | hb
      · exact absurd hb (by decide)
      · exact absurd hb (by decide)
      · exact absurd hb (by decide)

theorem idParts_plain {id : NodeId} (h : id.Stored) {tag text rest : List UInt8}
    (hparts : idParts id = some (tag, text, rest)) : 62 ∉ tag ∧ 60 ∉ text := by
  obtain ⟨t, addr⟩ := id
  cases t with
  | apemodeDefault => cases hparts
  | link6 =>
      obtain ⟨rfl, hrest⟩ := Prod.mk.inj (Option.some.inj hparts)
      obtain ⟨rfl, rfl⟩ := Prod.mk.inj hrest
      refine ⟨by decide +kernel, fun hmem => ?_⟩
      rcases mem_etherToStr hmem with hb | hb
      · exact absurd hb (by decide)
      · exact absurd hb (by decide)
  | ip =>
      obtain ⟨rfl, hrest⟩ := Prod.mk.inj (Option.some.inj hparts)
      obtain ⟨rfl, rfl⟩ := Prod.mk.inj hrest
      exact addressToStr_plain h
  | tcp =>
      obtain ⟨rfl, hrest⟩ := Prod.mk.inj (Option.some.inj hparts)
      obtain ⟨rfl, rfl⟩ := Prod.mk.inj hrest
      exact addressToStr_plain h

theorem nodeIdMsg_none {id : NodeId} (h : idParts id = none) : nodeIdMsg id = lit " " := by
  obtain ⟨t, addr⟩ := id
  cases t with
  | apemodeDefault => rfl
  | _ => cases h

theorem nodeIdMsg_some {id : NodeId} {tag text rest : List UInt8}
    (h : idParts id = some (tag, text, rest)) : nodeIdMsg id = xmltag tag text ++ rest := by
  obtain ⟨t, addr⟩ := id
  cases t with
  | apemodeDefault => cases h
  | tcp =>
      obtain ⟨rfl, hrest⟩ := Prod.mk.inj (Option.some.inj h)
      obtain ⟨rfl, rfl⟩ := Prod.mk.inj hrest
      exact List.append_assoc _ _ _
  | _ =>
      obtain ⟨rfl, hrest⟩ := Prod.mk.inj (Option.some.inj h)
      obtain ⟨rfl, rfl⟩ := Prod.mk.inj hrest
      exact (List.append_nil _).symm

theorem idParts_of_nodeIdXml {a b : NodeId} (ha : a.Stored) (hb : b.Stored)
    (h : nodeIdXml a = nodeIdXml b) : idParts a = idParts b := by
  have hmsg : nodeIdMsg a = nodeIdMsg b := by
    rw [nodeIdXml, nodeIdXml, xmltag, xmltag] at h
    simpa only [List.append_assoc, List.append_cancel_left_eq, List.append_cancel_right_eq] using h
  have hblank (tag text rest : List UInt8) : lit " " ≠ xmltag tag text ++ rest := by
    intro heq
    have hhead := congrArg List.head? heq
    cases hhead
  cases hpa : idParts a with
  | none =>
      cases hpb : idParts b with
      | none => rfl
      | some parts =>
          rw [nodeIdMsg_none hpa, nodeIdMsg_some hpb] at hmsg
          exact absurd hmsg (hblank _ _ _)
  | some parts =>
      obtain ⟨tag, text, rest⟩ := parts
      cases hpb : idParts b with
      | none =>
          rw [nodeIdMsg_none hpb, nodeIdMsg_some hpa] at hmsg
          exact absurd hmsg.symm (hblank _ _ _)
      | some parts' =>
          obtain ⟨tag', text', rest'⟩ := parts'
          rw [nodeIdMsg_some hpa, nodeIdMsg_some hpb] at hmsg
          obtain ⟨htag, htext⟩ := idParts_plain ha hpa
          obtain ⟨htag', htext'⟩ := idParts_plain hb hpb
          obtain ⟨rfl, rfl, rfl⟩ := xmltag_append_inj htag htag' htext htext' hmsg
          rfl

theorem nodeType_of_idParts {a b : NodeId} (h : idParts a = idParts b) : a.nodeType = b.nodeType := by
  have hlink (ad : Address) : lit "link" ≠ typeToStr ad := by
    have hlits : lit "link" ≠ lit "IP" ∧ lit "link" ≠ lit "IPv6" ∧
      lit "link" ≠ lit "<invalid address family>" := by decide +kernel
    rw [typeToStr]
    split_ifs
    · exact hlits.1
    · exact hlits.2.1
    · exact hlits.2.2
  have htag {tag text rest tag' text' rest' : List UInt8}
      (heq : some (tag, text, rest) = some (tag', text', rest')) : tag = tag' ∧ rest = rest' := by
    obtain ⟨htags, hrest⟩ := Prod.mk.inj (Option.some.inj heq)
    exact ⟨htags, (Prod.mk.inj hrest).2⟩
  have hport (n : Nat) : [] ≠ lit " " ++ xmltag (lit "port") (decimal n) := (List.cons_ne_nil _ _).symm
  obtain ⟨t, a⟩ := a
  obtain ⟨t', b⟩ := b
  cases t with
  | apemodeDefault => cases t' with
    | apemodeDefault => rfl
    | _ => cases h
  | link6 => cases t' with
    | apemodeDefault => cases h
    | link6 => rfl
    | ip => exact absurd (htag h).1 (hlink _)
    | tcp => exact absurd (htag h).1 (hlink _)
  | ip => cases t' with
    | apemodeDefault => cases h
    | link6 => exact absurd (htag h).1.symm (hlink _)
    | ip => rfl
    | tcp => exact absurd (htag h).2 (hport _)
  | tcp => cases t' with
    | apemodeDefault => cases h
    | link6 => exact absurd (htag h).1.symm (hlink _)
    | ip => exact absurd (htag h).2.symm (hport _)
    | tcp => rfl

theorem nodeIdStr_of_idParts {a b : NodeId} (h : idParts a = idParts b) : nodeIdStr a = nodeIdStr b := by
  have htype := nodeType_of_idParts h
  obtain ⟨t, a⟩ := a
  obtain ⟨t', b⟩ := b
  obtain rfl : t = t' := htype
  cases t with
  | apemodeDefault => rfl
  | link6 => exact (Prod.mk.inj (Prod.mk.inj (Option.some.inj h)).2).1
  | ip => exact (Prod.mk.inj (Prod.mk.inj (Option.some.inj h)).2).1
  | tcp =>
      obtain ⟨htext, hrest⟩ := Prod.mk.inj (Prod.mk.inj (Option.some.inj h)).2
      have hport := List.append_cancel_left hrest
      have htag : 62 ∉ lit "port" := by decide +kernel
      have hdigits (n : Nat) : 60 ∉ decimal n :=
        not_mem_of_isHexDigit isHexDigit_of_mem_decimal (by decide)
      rw [← List.append_nil (xmltag (lit "port") (decimal a.tcp4Port)),
        ← List.append_nil (xmltag (lit "port") (decimal b.tcp4Port))] at hport
      have hdecimal := (xmltag_append_inj htag htag (hdigits _) (hdigits _) hport).2.1
      change addressToStr a.tcp4Host ++ lit ":" ++ decimal a.tcp4Port =
        addressToStr b.tcp4Host ++ lit ":" ++ decimal b.tcp4Port
      rw [htext, hdecimal]

theorem nodeIdXml_inj {a b : NodeId} (ha : a.Stored) (hb : b.Stored) (h : nodeIdXml a = nodeIdXml b) :
    nodeIdCompare a b = 0 := by
  have hparts := idParts_of_nodeIdXml ha hb h
  exact nodeIdStr_inj ha hb (nodeType_of_idParts hparts) (nodeIdStr_of_idParts hparts)

theorem nodeIdXml_congr {a b : NodeId} (h : nodeIdCompare a b = 0) :
    nodeIdXml a = nodeIdXml b ∧ nodeIdStr a = nodeIdStr b := by
  obtain ⟨htype, hsignificant⟩ := nodeIdCompare_eq_zero_iff.mp h
  obtain ⟨t, a⟩ := a
  obtain ⟨t', b⟩ := b
  obtain rfl : t = t' := htype
  cases t with
  | apemodeDefault => exact ⟨rfl, rfl⟩
  | link6 =>
      have heth : a.eth = b.eth := hsignificant
      refine ⟨?_, congrArg etherToStr heth⟩
      change xmltag _ (_ ++ xmltag _ (etherToStr a.eth)) = xmltag _ (_ ++ xmltag _ (etherToStr b.eth))
      rw [heth]
  | ip =>
      have hip : a.ip = b.ip := NodeAddr.ip_eq_iff.mpr hsignificant
      refine ⟨?_, congrArg addressToStr hip⟩
      change xmltag _ (_ ++ xmltag (typeToStr a.ip) (addressToStr a.ip)) =
        xmltag _ (_ ++ xmltag (typeToStr b.ip) (addressToStr b.ip))
      rw [hip]
  | tcp =>
      obtain ⟨hhost, hport⟩ := NodeAddr.tcp4_eq_iff.mpr hsignificant
      refine ⟨?_, ?_⟩
      · rw [nodeIdXml, nodeIdXml, nodeIdMsg, nodeIdMsg]
        dsimp only
        rw [hhost, hport]
      · rw [nodeIdStr, nodeIdStr]
        dsimp only
        rw [hhost, hport]

/-- **Ids in texts.** The element of an id in a dump tells the node, and so does its text among the nodes
of one type. -/
theorem nodeIdXml_eq_iff {a b : NodeId} (ha : a.Stored) (hb : b.Stored) :
    (nodeIdXml a = nodeIdXml b ↔ nodeIdCompare a b = 0) ∧
      (a.nodeType = b.nodeType → (nodeIdStr a = nodeIdStr b ↔ nodeIdCompare a b = 0)) :=
  ⟨⟨nodeIdXml_inj ha hb, fun h => (nodeIdXml_congr h).1⟩,
    fun htype => ⟨nodeIdStr_inj ha hb htype, fun h => (nodeIdXml_congr h).2⟩⟩

/-- A link-local address, `fe80::1` when its last two groups are `0` and `1`. -/
def linkLocal (group last : UInt8) : Address :=
  (Address.clear.setType afInet6).setAddr 16 fun i =>
    if i = 0 then 0xfe else if i = 1 then 0x80 else if i = 13 then group else if i = 15 then last else 0

/-- Port 80 of `fe80::1` has the text of `fe80::1:80`, but another element. -/
theorem nodeIdXml_eq_iff_linkLocal :
    let port : NodeId := ⟨.tcp, (NodeAddr.setTcp4Host Octets.zero (linkLocal 0 1)).setTcp4Port 80⟩
    let host : NodeId := ⟨.ip, NodeAddr.setIp Octets.zero (linkLocal 1 0x80)⟩
    nodeIdStr port = nodeIdStr host ∧ nodeIdXml port ≠ nodeIdXml host := by
  intro port host
  have hport : port.Stored := Or.inr (by decide +kernel)
  have hhost : host.Stored := Or.inr (by decide +kernel)
  refine ⟨by decide +kernel, fun hxml => ?_⟩
  have hsame := (nodeIdXml_eq_iff hport hhost).1.mp hxml
  exact absurd hsame (by decide +kernel)

end Export

end EtherApe
