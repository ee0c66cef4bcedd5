import Mathlib.Data.List.TakeWhile
import EtherApe.DecodeProto.Replies
import EtherApe.Lib.Tokens

/-!
# Passive replies

A reply of an FTP server to `PASV` has an address and a port as six decimal numbers in parentheses.
`get_ftp` reads the last two of them with `sscanf`, of which it checks only that it is not zero: for a
field that is empty but for white space the result is the end of the input, and the number is left as it
was.
-/

namespace EtherApe

open DecodeState

/-! ### Fields -/

def isFtpDelimiter (b : UInt8) : Bool := b = 40 ∨ b = 44 ∨ b = 41

def ftpFields (payload : List UInt8) : List (List UInt8) := splitTokens isFtpDelimiter payload

def dropSign : List UInt8 → List UInt8
  | [] => []
  | b :: bs => if b = 43 ∨ b = 45 then bs else b :: bs

/-- A field that has a decimal number after white space. -/
def BeginsWithNumber (field : List UInt8) : Prop :=
  ∃ b ∈ (dropSign (field.dropWhile isSpace)).head?, isDigit b

theorem beginsWithNumber_iff (field : List UInt8) :
    BeginsWithNumber field ↔ ∃ value, scanInt field = .number value := by
  unfold BeginsWithNumber scanInt dropSign
  cases field.dropWhile isSpace with
  | nil => simp
  | cons b bs =>
      dsimp only
      generalize (if b = 43 ∨ b = 45 then bs else b :: bs) = digits
      cases digits with
      | nil => simp
      | cons c cs =>
          cases hc : isDigit c with
          | false => simp [hc]
          | true => simp [hc]

theorem scanInt_eq_eof_iff (field : List UInt8) :
    scanInt field = .eof ↔ ∀ b ∈ field, isSpace b := by
  rw [← List.dropWhile_eq_nil_iff]
  unfold scanInt
  cases field.dropWhile isSpace with
  | nil => simp
  | cons b bs =>
      dsimp only
      split_ifs <;> simp

theorem beginsWithNumber_append_nul (field more : List UInt8) :
    BeginsWithNumber (field ++ 0 :: more) ↔ BeginsWithNumber field := by
  unfold BeginsWithNumber
  rw [List.dropWhile_append]
  cases hfield : field.dropWhile isSpace with
  | nil => simp [dropSign, isSpace, isDigit]
  | cons b bs =>
      rw [if_neg (by simp), List.cons_append]
      unfold dropSign
      dsimp only
      split_ifs
      · cases bs with
        | nil => simp [isDigit]
        | cons c cs => simp
      · simp

theorem ftpTokens_eq (mesg : List UInt8) :
    ftpTokens mesg = splitTokens isFtpDelimiter (mesg.takeWhile (· ≠ 0)) := by
  unfold ftpTokens splitTokens isFtpDelimiter
  refine List.filter_congr fun piece _ => ?_
  cases piece with
  | nil => rfl
  | cons b bs => rfl

theorem ftpFields_of_token {mesg : List UInt8} {i : Nat} {token : List UInt8}
    (h : (ftpTokens mesg)[i]? = some token) :
    ∃ field, (ftpFields mesg)[i]? = some field ∧
      (BeginsWithNumber field ↔ BeginsWithNumber token) := by
  rw [ftpTokens_eq] at h
  have hsplit := List.takeWhile_append_dropWhile (p := (· ≠ 0)) (l := mesg)
  cases hrest : mesg.dropWhile (· ≠ 0) with
  | nil =>
      rw [hrest, List.append_nil] at hsplit
      rw [hsplit] at h
      exact ⟨token, h, Iff.rfl⟩
  | cons b rest =>
      have hb : b = 0 := by
        have hhead := List.head?_dropWhile_not (· ≠ 0) mesg
        rw [hrest] at hhead
        simpa using hhead
      rw [hrest, hb] at hsplit
      obtain ⟨field, hfield, rfl | ⟨more, rfl⟩⟩ := @splitTokens_append _ _ _ rest 0 rfl _ _ h
      · rw [hsplit] at hfield
        exact ⟨_, hfield, Iff.rfl⟩
      · rw [hsplit] at hfield
        exact ⟨_, hfield, beginsWithNumber_append_nul token more⟩

/-! ### Replies -/

def payloadOf (w : Window) : List UInt8 := (List.range w.len).map w.get

/-- A decimal number of one byte. -/
structure IsByte (field : List UInt8) (value : Nat) : Prop where
  ne_nil : field ≠ []
  digits : ∀ b ∈ field, isDigit b
  value_eq : digitsValue field = value
  value_lt : value < 256

/-- A passive reply with a text in front of the numbers, of which the last two are given. -/
structure IsPassiveReply (payload text : List UInt8) (p₁ p₂ : Nat) : Prop where
  text_plain : ∀ b ∈ text, isFtpDelimiter b = false
  numbers : ∃ h₁ h₂ h₃ h₄ s₁ s₂ rest v₁ v₂ v₃ v₄,
    IsByte h₁ v₁ ∧ IsByte h₂ v₂ ∧ IsByte h₃ v₃ ∧ IsByte h₄ v₄ ∧ IsByte s₁ p₁ ∧ IsByte s₂ p₂ ∧
      payload = [50, 50, 55] ++ text ++ 40 :: (h₁ ++ 44 :: (h₂ ++ 44 :: (h₃ ++ 44 :: (h₄ ++
        44 :: (s₁ ++ 44 :: (s₂ ++ 41 :: rest))))))

/-- The reply is parsed as it should be: a well-formed one announces its port, and without a sixth and a
seventh field that begin with a number no conversation is stored. -/
structure PassiveParsed (env : DecodeEnv) (d : DecodeState) : Prop where
  announced : ∀ text p₁ p₂, IsPassiveReply (payloadOf d.window) text p₁ p₂ →
    ftpPassive env d.window = some (p₁ * 256 + p₂) ∧
      (getFtp env d).conversations = d.conversations.addConversation d.globalSrcAddress
        d.globalDstAddress (p₁ * 256 + p₂) 0 "FTP-PASSIVE"
  ignored : (¬∃ field ∈ (ftpFields (payloadOf d.window))[5]?, BeginsWithNumber field) ∨
      (¬∃ field ∈ (ftpFields (payloadOf d.window))[6]?, BeginsWithNumber field) →
    (getFtp env d).conversations = d.conversations

/-- The number that is used for a field, which for one without a number is what the variable held. -/
def usedNumber (uninit : Nat) (field : List UInt8) : Nat :=
  (scannedValue uninit (scanInt field)).getD 0

def usedPort (env : DecodeEnv) (hi low : List UInt8) : Nat :=
  (usedNumber env.uninitHiByte hi * 256 + usedNumber env.uninitLowByte low) % 65536

/-- No zero cuts the text of a reply, and a reply with nothing but white space for one of its last two
numbers finds the conversation that it asks for. -/
structure PassiveReadable (env : DecodeEnv) (d : DecodeState) : Prop where
  uncut : ∀ text p₁ p₂, IsPassiveReply (payloadOf d.window) text p₁ p₂ → 0 ∉ text
  blank : [50, 50, 55] <+: payloadOf d.window → ∀ hi low,
    (ftpTokens (payloadOf d.window))[5]? = some hi → (ftpTokens (payloadOf d.window))[6]? = some low →
    scanInt hi ≠ .failed → scanInt low ≠ .failed →
    (∀ b ∈ hi, isSpace b) ∨ (∀ b ∈ low, isSpace b) →
    (d.conversations.findConversation d.globalSrcAddress d.globalDstAddress (usedPort env hi low)
      0).isSome

theorem hasBytes_iff_prefix (w : Window) (bs : List UInt8) (hlen : bs.length ≤ w.len) :
    w.hasBytes 0 bs ↔ bs <+: payloadOf w := by
  have hlength : (payloadOf w).length = w.len := by simp [payloadOf]
  have hget : ∀ j (hj : j < (payloadOf w).length), (payloadOf w)[j] = w.get j := fun j hj => by
    simp [payloadOf]
  constructor
  · intro h
    refine Window.prefix_of_hasBytes (i := 0) h (Window.hasBytes_of_get fun j hj => ?_) (by omega)
    rw [hget j hj, Nat.zero_add]
  · intro h
    refine Window.hasBytes_of_get fun j hj => ?_
    rw [Nat.zero_add, ← hget j (by omega)]
    exact (h.getElem hj).symm

theorem ftpPassive_eq (env : DecodeEnv) (w : Window) :
    ftpPassive env w =
      if [50, 50, 55] <+: payloadOf w then ftpServerPort env (payloadOf w) else none := by
  have hpayload : ((List.range w.len).map fun j => w.get (0 + j)) = payloadOf w := by
    simp [payloadOf]
  unfold ftpPassive
  rw [hpayload]
  by_cases hshort : w.len < 3
  · rw [if_pos hshort, if_neg]
    intro h
    have hle := h.length_le
    simp [payloadOf] at hle
    omega
  · rw [if_neg hshort]
    have hlen : [(50 : UInt8), 50, 55].length ≤ w.len := not_lt.mp hshort
    exact if_congr ( hasBytes_iff_prefix w _ hlen) rfl rfl

theorem ftpServerPort_eq_some_iff (env : DecodeEnv) {mesg : List UInt8} {port : Nat} :
    ftpServerPort env mesg = some port ↔
      ∃ hi low, (ftpTokens mesg)[5]? = some hi ∧ (ftpTokens mesg)[6]? = some low ∧
        scanInt hi ≠ .failed ∧ scanInt low ≠ .failed ∧ usedPort env hi low = port := by
  have hscanned : ∀ (uninit : Nat) (field : List UInt8) (n : Nat),
      scannedValue uninit (scanInt field) = some n ↔
        scanInt field ≠ .failed ∧ usedNumber uninit field = n := by
    intro uninit field n
    unfold usedNumber
    cases scanInt field with
    | eof => simp [scannedValue]
    | failed => simp [scannedValue]
    | number value => simp [scannedValue]
  simp only [ftpServerPort, Option.bind_eq_bind, Option.bind_eq_some_iff, hscanned, usedPort,
    Option.some.injEq]
  constructor
  · rintro ⟨hi, hhi, _, ⟨hhiScan, rfl⟩, low, hlow, _, ⟨hlowScan, rfl⟩, rfl⟩
    exact ⟨hi, low, hhi, hlow, hhiScan, hlowScan, rfl⟩
  · rintro ⟨hi, low, hhi, hlow, hhiScan, hlowScan, rfl⟩
    exact ⟨hi, hhi, _, ⟨hhiScan, rfl⟩, low, hlow, _, ⟨hlowScan, rfl⟩, rfl⟩

theorem isDigit_bounds {b : UInt8} (h : isDigit b) : 48 ≤ b.toNat ∧ b.toNat ≤ 57 := by
  simpa [isDigit, UInt8.le_iff_toNat_le] using h

theorem not_isSpace_of_isDigit {b : UInt8} (h : isDigit b) : isSpace b = false := by
  have hbounds := isDigit_bounds h
  simp [isSpace, ← UInt8.toNat_inj, UInt8.le_iff_toNat_le]
  omega

theorem scanInt_of_isByte {field : List UInt8} {value : Nat} (h : IsByte field value) :
    scanInt field = .number value := by
  obtain ⟨hne, hdigits, hvalue, hlt⟩ := h
  obtain ⟨b, bs, rfl⟩ := List.exists_cons_of_ne_nil hne
  have hb := hdigits b List.mem_cons_self
  have hsign : ¬(b = 43 ∨ b = 45) := by
    rintro (rfl | rfl)
    · exact absurd hb (by decide)
    · exact absurd hb (by decide)
  unfold scanInt
  rw [List.dropWhile_cons, not_isSpace_of_isDigit hb, if_neg Bool.false_ne_true]
  dsimp only
  rw [if_neg hsign, List.takeWhile_eq_self_iff.mpr hdigits, if_neg hne, hvalue,
    if_neg (not_or.mp hsign).2]
  congr 1
  unfold saturateLong
  omega

theorem plain_of_isByte {field : List UInt8} {value : Nat} (h : IsByte field value) :
    ∀ b ∈ field, isFtpDelimiter b = false ∧ b ≠ 0 := by
  intro b hb
  have hbounds := isDigit_bounds (h.digits b hb)
  simp [isFtpDelimiter, ← UInt8.toNat_inj]
  omega

/-- The token in front of a delimiter, when no zero comes before. -/
theorem ftpTokens_append_cons {xs : List UInt8} (hxs : ∀ b ∈ xs, isFtpDelimiter b = false ∧ b ≠ 0)
    (hne : xs ≠ []) {sep : UInt8} (hsep : isFtpDelimiter sep) (ys : List UInt8) :
    ftpTokens (xs ++ sep :: ys) = xs :: ftpTokens ys := by
  have hnonzero : sep ≠ 0 := by
    rintro rfl
    exact absurd hsep (by decide)
  rw [ftpTokens_eq, ftpTokens_eq, List.takeWhile_append_of_pos fun b hb => by simpa using (hxs b hb).2,
    List.takeWhile_cons_of_pos (by simpa using hnonzero)]
  exact splitTokens_append_cons (fun b hb => (hxs b hb).1) hne hsep _

theorem takeWhile_append_of_mem {xs : List UInt8} (h : 0 ∈ xs) (ys : List UInt8) :
    (xs ++ ys).takeWhile (· ≠ 0) = xs.takeWhile (· ≠ 0) := by
  rw [List.takeWhile_append, if_neg]
  intro hlen
  have hall := List.takeWhile_eq_self_iff.mp ((List.takeWhile_prefix _).eq_of_length hlen)
  simpa using hall 0 h

/-- A well-formed reply gives its port unless its text has a zero. -/
theorem ftpServerPort_of_reply (env : DecodeEnv) {payload text : List UInt8} {p₁ p₂ : Nat}
    (h : IsPassiveReply payload text p₁ p₂) :
    ftpServerPort env payload = if 0 ∈ text then none else some (p₁ * 256 + p₂) := by
  obtain ⟨htext, h₁, h₂, h₃, h₄, s₁, s₂, rest, v₁, v₂, v₃, v₄, hh₁, hh₂, hh₃, hh₄, hs₁, hs₂,
    rfl⟩ := h
  have hplain : ∀ b ∈ [50, 50, 55] ++ text, isFtpDelimiter b = false := by
    intro b hb
    rcases List.mem_append.mp hb with hb | hb
    · simp only [List.mem_cons, List.not_mem_nil, or_false] at hb
      rcases hb with rfl | rfl | rfl <;> rfl
    · exact htext b hb
  by_cases hzero : 0 ∈ text
  · rw [if_pos hzero, Option.eq_none_iff_forall_ne_some]
    intro port hport
    obtain ⟨hi, _, hhi, _⟩ := (ftpServerPort_eq_some_iff env).mp hport
    rw [ftpTokens_eq, takeWhile_append_of_mem (List.mem_append_right _ hzero)] at hhi
    have hone := splitTokens_of_forall (p := isFtpDelimiter)
      fun b hb => hplain b ((List.takeWhile_sublist (· ≠ 0)).subset hb)
    have hlt := (List.getElem?_eq_some_iff.mp hhi).1
    omega
  · rw [if_neg hzero, ftpServerPort_eq_some_iff]
    have hfirst : ∀ b ∈ [50, 50, 55] ++ text, isFtpDelimiter b = false ∧ b ≠ 0 := by
      intro b hb
      refine ⟨hplain b hb, ?_⟩
      rintro rfl
      rcases List.mem_append.mp hb with hb | hb
      · simp at hb
      · exact hzero hb
    have hcomma : isFtpDelimiter 44 := by decide
    rw [ftpTokens_append_cons hfirst (by simp) (by decide),
      ftpTokens_append_cons (plain_of_isByte hh₁) hh₁.ne_nil hcomma,
      ftpTokens_append_cons (plain_of_isByte hh₂) hh₂.ne_nil hcomma,
      ftpTokens_append_cons (plain_of_isByte hh₃) hh₃.ne_nil hcomma,
      ftpTokens_append_cons (plain_of_isByte hh₄) hh₄.ne_nil hcomma,
      ftpTokens_append_cons (plain_of_isByte hs₁) hs₁.ne_nil hcomma,
      ftpTokens_append_cons (plain_of_isByte hs₂) hs₂.ne_nil (by decide)]
    refine ⟨s₁, s₂, rfl, rfl, ?_, ?_, ?_⟩
    · rw [scanInt_of_isByte hs₁]
      simp
    · rw [scanInt_of_isByte hs₂]
      simp
    · have hlt₁ := hs₁.value_lt
      have hlt₂ := hs₂.value_lt
      unfold usedPort usedNumber
      rw [scanInt_of_isByte hs₁, scanInt_of_isByte hs₂]
      simp only [scannedValue, Option.getD_some]
      omega

section Parsed

variable {env : DecodeEnv} {d : DecodeState}

theorem addConversation_eq_self_iff (t : Conversations) (src dst : Address) (port : Nat)
    (data : String) :
    t.addConversation src dst port 0 data = t ↔ (t.findConversation src dst port 0).isSome := by
  unfold Conversations.addConversation
  cases t.findConversation src dst port 0 with
  | some str => exact iff_of_true rfl rfl
  | none =>
      refine iff_of_false (fun h => ?_) Bool.false_ne_true
      have hlen := congrArg (fun t => t.items.length) h
      simp at hlen

theorem isPassiveReply_prefix {payload text : List UInt8} {p₁ p₂ : Nat}
    (h : IsPassiveReply payload text p₁ p₂) : [50, 50, 55] <+: payload := by
  obtain ⟨_, _, _, _, _, _, _, _, _, _, _, _, _, _, _, _, _, _, rfl⟩ := h
  rw [List.append_assoc]
  exact List.prefix_append _ _

theorem not_beginsWithNumber_of_blank {field : List UInt8} (h : ∀ b ∈ field, isSpace b) :
    ¬BeginsWithNumber field := by
  rw [beginsWithNumber_iff, (scanInt_eq_eof_iff field).mpr h]
  rintro ⟨value, hvalue⟩
  cases hvalue

/-- A field that `sscanf` does not reject has a number, or nothing but white space. -/
theorem blank_of_scanned {field : List UInt8} (h : scanInt field ≠ .failed)
    (hnumber : ¬BeginsWithNumber field) : ∀ b ∈ field, isSpace b := by
  rw [← scanInt_eq_eof_iff]
  cases hscan : scanInt field with
  | eof => rfl
  | failed => exact absurd hscan h
  | number value => exact absurd ((beginsWithNumber_iff field).mpr ⟨value, hscan⟩) hnumber

theorem beginsWithNumber_field_iff {mesg : List UInt8} {i : Nat} {token : List UInt8}
    (h : (ftpTokens mesg)[i]? = some token) :
    (∃ field ∈ (ftpFields mesg)[i]?, BeginsWithNumber field) ↔ BeginsWithNumber token := by
  obtain ⟨field, hfield, hiff⟩ := ftpFields_of_token h
  rw [hfield, ← hiff]
  constructor
  · rintro ⟨other, hmem, hbegins⟩
    rwa [Option.mem_some.mp hmem]
  · intro hbegins
    exact ⟨field, rfl, hbegins⟩

end Parsed

/-- **Passive replies.** -/
theorem passiveParsed_iff (env : DecodeEnv) (d : DecodeState) :
    PassiveParsed env d ↔ PassiveReadable env d := by
  have hconversations := @getFtp_conversations d env
  have hpassive := ftpPassive_eq env d.window
  constructor
  · rintro ⟨hannounced, hignored⟩
    constructor
    · intro text p₁ p₂ hreply hzero
      have hport := (hannounced text p₁ p₂ hreply).1
      rw [hpassive, if_pos ( isPassiveReply_prefix hreply), ftpServerPort_of_reply env hreply,
        if_pos hzero] at hport
      cases hport
    · intro hstart hi low hhi hlow hhiScan hlowScan hblank
      have hport := (ftpServerPort_eq_some_iff env).mpr
        ⟨hi, low, hhi, hlow, hhiScan, hlowScan, rfl⟩
      rw [hpassive, if_pos hstart, hport] at hconversations
      have hunchanged := hignored (hblank.imp
        (fun h => mt (beginsWithNumber_field_iff hhi).mp (not_beginsWithNumber_of_blank h))
        fun h => mt (beginsWithNumber_field_iff hlow).mp (not_beginsWithNumber_of_blank h))
      exact (addConversation_eq_self_iff _ _ _ _ _).mp (hconversations.symm.trans hunchanged)
  · rintro ⟨huncut, hblank⟩
    constructor
    · intro text p₁ p₂ hreply
      rw [hpassive, if_pos ( isPassiveReply_prefix hreply), ftpServerPort_of_reply env hreply,
        if_neg (huncut text p₁ p₂ hreply)] at hconversations ⊢
      exact ⟨rfl, hconversations⟩
    · intro hmissing
      rw [hpassive] at hconversations
      by_cases hstart : [50, 50, 55] <+: payloadOf d.window
      · rw [if_pos hstart] at hconversations
        cases hport : ftpServerPort env (payloadOf d.window) with
        | none => rw [hconversations, hport]
        | some port =>
            rw [hport] at hconversations
            obtain ⟨hi, low, hhi, hlow, hhiScan, hlowScan, rfl⟩ :=
              (ftpServerPort_eq_some_iff env).mp hport
            rw [beginsWithNumber_field_iff hhi, beginsWithNumber_field_iff hlow] at hmissing
            have hknown := hblank hstart hi low hhi hlow hhiScan hlowScan
              (hmissing.imp (blank_of_scanned hhiScan) (blank_of_scanned hlowScan))
            exact hconversations.trans ((addConversation_eq_self_iff _ _ _ _ _).mpr hknown)
      · rw [if_neg hstart] at hconversations
        exact hconversations

/-- The bytes of `227 (1,2,3,4, ,5)`. -/
def blankReply : List UInt8 :=
  [50, 50, 55, 32, 40, 49, 44, 50, 44, 51, 44, 52, 44, 32, 44, 53, 41]

def blankReplyState : DecodeState :=
  decodeProtoStart (fun i => blankReply.getD i 0) blankReply.length Conversations.empty none

/-- A reply without the sixth number still stores a conversation. -/
theorem not_all_passive_parsed : ¬∀ env d, PassiveParsed env d := by
  intro h
  have hfields : (ftpFields (payloadOf blankReplyState.window))[5]? = some [32] := by decide +kernel
  have hunchanged := (h (DecodeEnv.bare linktypeRawIp .ip) blankReplyState).ignored (Or.inl (by
    rw [hfields]
    rintro ⟨field, hmem, hbegins⟩
    rw [← Option.mem_some.mp hmem] at hbegins
    exact not_beginsWithNumber_of_blank (by simp [isSpace]) hbegins))
  have hcount := congrArg Conversations.nConversations hunchanged
  exact absurd hcount (by decide +kernel)

end EtherApe
