import Almanac.Proofs.Text.Trimming
import Almanac.Service.Client

/-!
# Whom a key stands for

A client is known by the first address that is not empty: the first hop it was forwarded for, its real
address as a proxy reports it, or the address it connects from. The key is that address as long as
the header that decides holds one. A header that is not empty decides even if nothing but blanks is left
to its address; then the key is empty, and all such clients have one budget.
-/

namespace Almanac.Service

open Text

variable {headers : Headers} {peer : Option String} {name n v a b : String}
  {before after : Headers} {Ps : List (String → Prop)} {read : String → String}
  {rule : List Char → List Char → Prop}

/-! ### Headers -/

/-- Whether a text is the value of the first header with a name. -/
def IsFirstValue (headers : Headers) (name value : String) : Prop :=
  ∃ before n after, headers = before ++ (n, value) :: after ∧ n.toLower = name ∧
    ∀ h ∈ before, h.1.toLower ≠ name

theorem header?_eq_some_iff : header? headers name = some v ↔ IsFirstValue headers name v := by
  simp only [header?, Option.map_eq_some_iff, List.find?_eq_some_iff_append, beq_iff_eq,
    Bool.not_eq_true', beq_eq_false_iff_ne]
  constructor
  · rintro ⟨⟨n, w⟩, ⟨hn, before, after, rfl, hbefore⟩, rfl⟩
    exact ⟨before, n, after, rfl, hn, hbefore⟩
  · rintro ⟨before, n, after, rfl, hn, hbefore⟩
    exact ⟨(n, v), ⟨hn, before, after, rfl, hbefore⟩, rfl⟩

theorem IsFirstValue.unique {w : String} (h : IsFirstValue headers name v)
    (h' : IsFirstValue headers name w) : v = w := by
  rw [← header?_eq_some_iff] at h h'
  exact Option.some.inj (h.symm.trans h')

/-- A header of another name, or after one of the same name, may have any value. -/
theorem header?_eq_of_hidden (h : n.toLower = name → ∃ x ∈ before, x.1.toLower = name)
    (v w : String) :
    header? (before ++ (n, v) :: after) name = header? (before ++ (n, w) :: after) name := by
  by_cases hn : n.toLower = name
  · obtain ⟨x, hx, hname⟩ := h hn
    obtain ⟨y, hy⟩ : ∃ y, before.find? (fun h => h.1.toLower == name) = some y := by
      rw [← Option.isSome_iff_exists, List.find?_isSome]
      exact ⟨x, hx, beq_iff_eq.mpr hname⟩
    simp only [header?, List.find?_append, hy, Option.some_or]
  · simp [header?, List.find?_append, hn]

/-! ### Addresses -/

/-- Whether a text is the first of some addresses set apart by commas. -/
def IsFirstHop (hop addresses : List Char) : Prop :=
  ',' ∉ hop ∧ (addresses = hop ∨ ∃ hops, addresses = hop ++ ',' :: hops)

theorem takeWhile_eq_iff_isFirstHop {s hop : List Char} :
    s.takeWhile (· ≠ ',') = hop ↔ IsFirstHop hop s := by
  constructor
  · rintro rfl
    refine ⟨fun h => by simpa using List.mem_takeWhile_imp h, ?_⟩
    have hsplit := List.takeWhile_append_dropWhile (p := (· ≠ ',')) (l := s)
    have hnot := List.head?_dropWhile_not (· ≠ ',') s
    cases hd : s.dropWhile (· ≠ ',') with
    | nil =>
      rw [hd, List.append_nil] at hsplit
      exact .inl hsplit.symm
    | cons c hops =>
      rw [hd] at hnot hsplit
      obtain rfl : c = ',' := by simpa using hnot
      exact .inr ⟨hops, hsplit.symm⟩
  · rintro ⟨hcomma, hhop⟩
    have hkept : ∀ c ∈ hop, decide (c ≠ ',') = true := by
      intro c hc
      exact decide_eq_true (ne_of_mem_of_not_mem hc hcomma)
    rcases hhop with rfl | ⟨hops, rfl⟩
    · exact List.takeWhile_eq_self_iff.mpr hkept
    · rw [List.takeWhile_append_of_pos hkept, List.takeWhile_cons_of_neg (by simp),
        List.append_nil]

/-- Whether an address is the first of some that commas set apart, without blanks at its ends. -/
def IsFirstAddress (addresses address : List Char) : Prop :=
  ∃ hop, IsFirstHop hop addresses ∧ Trims isBlank hop address

theorem ofList_eq_iff {t : List Char} : String.ofList t = a ↔ t = a.toList := by
  rw [← String.toList_inj, String.toList_ofList]

theorem firstHop_eq_iff : firstHop v = a ↔ IsFirstAddress v.toList a.toList := by
  rw [firstHop, ofList_eq_iff, trim_eq_iff]
  constructor
  · intro h
    exact ⟨_, takeWhile_eq_iff_isFirstHop.mp rfl, h⟩
  · rintro ⟨hop, hhop, h⟩
    rwa [takeWhile_eq_iff_isFirstHop.mpr hhop]

theorem trimmed_eq_iff : trimmed v = a ↔ Trims isBlank v.toList a.toList := by
  rw [trimmed, ofList_eq_iff, trim_eq_iff]

/-- What comes after the first hop makes no difference. -/
theorem firstHop_append (v hops : String) : firstHop (v ++ "," ++ hops) = firstHop v := by
  have hcut : (v ++ "," ++ hops).toList = v.toList ++ ',' :: hops.toList := by simp
  obtain ⟨hop, ⟨hcomma, hhop⟩, htrims⟩ := firstHop_eq_iff.mp (Eq.refl (firstHop v))
  rw [firstHop_eq_iff, hcut]
  refine ⟨hop, ⟨hcomma, .inr ?_⟩, htrims⟩
  rcases hhop with hhop | ⟨rest, hhop⟩
  · exact ⟨hops.toList, by rw [hhop]⟩
  · exact ⟨rest ++ ',' :: hops.toList, by rw [hhop, List.append_assoc, List.cons_append]⟩

/-- Whether an address is what the first header with a name gives, by a rule for values and
    addresses. -/
def IsGiven (headers : Headers) (name : String) (rule : List Char → List Char → Prop)
    (address : String) : Prop :=
  ∃ value, IsFirstValue headers name value ∧ rule value.toList address.toList

theorem isGiven_iff (hread : ∀ v a, read v = a ↔ rule v.toList a.toList)
    (h : IsFirstValue headers name v) : IsGiven headers name rule a ↔ read v = a := by
  rw [hread]
  constructor
  · rintro ⟨w, hw, ha⟩
    rwa [h.unique hw]
  · intro ha
    exact ⟨v, h, ha⟩

theorem IsGiven.unique (hread : ∀ v a, read v = a ↔ rule v.toList a.toList)
    (h : IsGiven headers name rule a) (h' : IsGiven headers name rule b) : a = b := by
  obtain ⟨v, hv, -⟩ := id h
  rw [isGiven_iff hread hv] at h h'
  exact h.symm.trans h'

/-- An empty header gives an empty address. -/
theorem IsGiven.eq_empty (hread : ∀ v a, read v = a ↔ rule v.toList a.toList)
    (hempty : read "" = "") (h : IsGiven headers name rule a)
    (hv : ∀ v, IsFirstValue headers name v → v = "") : a = "" := by
  obtain ⟨v, hfirst, -⟩ := id h
  rw [isGiven_iff hread hfirst, hv v hfirst, hempty] at h
  exact h.symm

/-! ### The first address -/

/-- Whether an address is the first that is not empty, of those that some sources give in their
    order. -/
inductive IsFirstOf : List (String → Prop) → String → Prop
  | here {P : String → Prop} {Ps : List (String → Prop)} {a : String} (h : P a) (hne : a ≠ "") :
      IsFirstOf (P :: Ps) a
  | there {P : String → Prop} {Ps : List (String → Prop)} {a : String} (h : ∀ b, P b → b = "")
      (ha : IsFirstOf Ps a) : IsFirstOf (P :: Ps) a

theorem IsFirstOf.ne_empty (h : IsFirstOf Ps a) : a ≠ "" := by
  induction h with
  | here h hne => exact hne
  | there h ha ih => exact ih

/-- There is no other, if each source gives one address at most. -/
theorem IsFirstOf.unique (hPs : ∀ P ∈ Ps, ∀ a b, P a → P b → a = b) (h : IsFirstOf Ps a)
    (h' : IsFirstOf Ps b) : a = b := by
  induction h with
  | here ha hne =>
    cases h' with
    | here hb _ => exact hPs _ (List.mem_cons_self ..) _ _ ha hb
    | there hnone _ => exact absurd (hnone _ ha) hne
  | there hnone _ ih =>
    cases h' with
    | here hb hne => exact absurd (hnone _ hb) hne
    | there _ hb => exact ih (fun P hP => hPs P (List.mem_cons_of_mem _ hP)) hb

/-- There is one, if some source gives an address that is not empty. -/
theorem exists_isFirstOf {P : String → Prop} (hP : P ∈ Ps) (h : P b) (hne : b ≠ "") :
    ∃ a, IsFirstOf Ps a := by
  induction Ps with
  | nil => cases hP
  | cons Q Ps ih =>
    by_cases hQ : ∃ a, Q a ∧ a ≠ ""
    · obtain ⟨a, ha, hane⟩ := hQ
      exact ⟨a, .here ha hane⟩
    · have hnone : ∀ a, Q a → a = "" := by
        intro a ha
        by_contra hane
        exact hQ ⟨a, ha, hane⟩
      rcases List.mem_cons.mp hP with rfl | hP
      · exact absurd (hnone b h) hne
      · obtain ⟨a, ha⟩ := ih hP
        exact ⟨a, .there hnone ha⟩

/-- Where the addresses of a client come from: the one it was forwarded for, its real one as a proxy
    reports it, and that of its peer; a client without one is unknown. -/
def sources (headers : Headers) (peer : Option String) : List (String → Prop) :=
  [IsGiven headers "x-forwarded-for" IsFirstAddress, IsGiven headers "x-real-ip" (Trims isBlank),
    (· ∈ peer), (· = "unknown")]

/-- Whether a client is known by an address. -/
def IsKnownBy (headers : Headers) (peer : Option String) : String → Prop :=
  IsFirstOf (sources headers peer)

theorem IsKnownBy.unique (h : IsKnownBy headers peer a) (h' : IsKnownBy headers peer b) :
    a = b := by
  refine IsFirstOf.unique ?_ h h'
  simp only [sources, List.mem_cons, List.not_mem_nil, or_false]
  rintro P (rfl | rfl | rfl | rfl) a b ha hb
  · exact ha.unique (fun v a => firstHop_eq_iff) hb
  · exact ha.unique (fun v a => trimmed_eq_iff) hb
  · exact Option.mem_unique ha hb
  · exact ha.trans hb.symm

theorem exists_isKnownBy (headers : Headers) (peer : Option String) :
    ∃ a, IsKnownBy headers peer a := by
  have hmem : (· = "unknown") ∈ sources headers peer := by simp [sources]
  exact exists_isFirstOf hmem rfl (by decide)

/-! ### The key -/

/-- Whether the header that decides is not empty, and yet nothing but blanks is left to its address. -/
def IsHollow (headers : Headers) : Prop :=
  (∃ v hop, IsFirstValue headers "x-forwarded-for" v ∧ v ≠ "" ∧ IsFirstHop hop v.toList ∧
    ∀ c ∈ hop, isBlank c = true) ∨
  (∀ v, IsFirstValue headers "x-forwarded-for" v → v = "") ∧
    ∃ v, IsFirstValue headers "x-real-ip" v ∧ v ≠ "" ∧ ∀ c ∈ v.toList, isBlank c = true

theorem filter_ne_empty_cases (headers : Headers) (name : String) :
    (∃ v, IsFirstValue headers name v ∧ v ≠ "" ∧
      (header? headers name).filter (· ≠ "") = some v) ∨
    (∀ v, IsFirstValue headers name v → v = "") ∧
      (header? headers name).filter (· ≠ "") = none := by
  simp only [← header?_eq_some_iff]
  cases header? headers name with
  | none => simp
  | some v =>
    by_cases hv : v = ""
    · simp [hv]
    · exact .inl ⟨v, rfl, hv, by simp [hv]⟩

/-- The first header that is not empty gives the key; without one the peer does. -/
theorem clientKey_cases (headers : Headers) (peer : Option String) :
    (∃ v, IsFirstValue headers "x-forwarded-for" v ∧ v ≠ "" ∧
      clientKey headers peer = firstHop v) ∨
    (∀ v, IsFirstValue headers "x-forwarded-for" v → v = "") ∧
      ((∃ v, IsFirstValue headers "x-real-ip" v ∧ v ≠ "" ∧ clientKey headers peer = trimmed v) ∨
        (∀ v, IsFirstValue headers "x-real-ip" v → v = "") ∧
          clientKey headers peer = (peer.filter (· ≠ "")).getD "unknown") := by
  rw [clientKey]
  rcases filter_ne_empty_cases headers "x-forwarded-for" with ⟨v, hv, hne, hf⟩ | ⟨hf, hnone⟩
  · exact .inl ⟨v, hv, hne, by rw [hf]⟩
  · refine .inr ⟨hf, ?_⟩
    rcases filter_ne_empty_cases headers "x-real-ip" with ⟨v, hv, hne, hr⟩ | ⟨hr, hnone'⟩
    · exact .inl ⟨v, hv, hne, by rw [hnone, hr]⟩
    · exact .inr ⟨hr, by rw [hnone, hnone']⟩

theorem isFirstOf_peer (peer : Option String) :
    IsFirstOf [(· ∈ peer), (· = "unknown")] ((peer.filter (· ≠ "")).getD "unknown") := by
  have hunknown : IsFirstOf [(· = "unknown")] "unknown" := .here rfl (by decide)
  cases peer with
  | none => exact .there (fun a ha => nomatch ha) hunknown
  | some a =>
    by_cases ha : a = ""
    · subst ha
      exact .there (fun b hb => (Option.some.inj hb).symm) hunknown
    · have hfilter : (some a).filter (· ≠ "") = some a := by simp [ha]
      rw [hfilter]
      exact .here rfl ha

/-- A key that is not empty is the address by which the client is known. -/
theorem isKnownBy_clientKey (h : clientKey headers peer ≠ "") :
    IsKnownBy headers peer (clientKey headers peer) := by
  rcases clientKey_cases headers peer with ⟨v, hv, -, hkey⟩ | ⟨hf, ⟨v, hv, -, hkey⟩ | ⟨hr, hkey⟩⟩
  · exact .here ((isGiven_iff (fun v a => firstHop_eq_iff) hv).mpr hkey.symm) h
  · have hreal := (isGiven_iff (fun v a => trimmed_eq_iff) hv).mpr hkey.symm
    exact .there (fun b hb => hb.eq_empty (fun v a => firstHop_eq_iff) rfl hf) (.here hreal h)
  · rw [hkey]
    refine .there (fun b hb => hb.eq_empty (fun v a => firstHop_eq_iff) rfl hf) ?_
    exact .there (fun b hb => hb.eq_empty (fun v a => trimmed_eq_iff) rfl hr) (isFirstOf_peer peer)

/-- The key is empty exactly if the header that decides is hollow. -/
theorem clientKey_eq_empty_iff (headers : Headers) (peer : Option String) :
    clientKey headers peer = "" ↔ IsHollow headers := by
  rcases clientKey_cases headers peer with ⟨v, hv, hne, hkey⟩ | ⟨hf, ⟨v, hv, hne, hkey⟩ | ⟨hr, hkey⟩⟩
  · rw [hkey, firstHop_eq_iff, String.toList_empty]
    simp only [IsFirstAddress, trims_nil_iff]
    constructor
    · rintro ⟨hop, hhop, hblank⟩
      exact .inl ⟨v, hop, hv, hne, hhop, hblank⟩
    · rintro (⟨w, hop, hw, -, hhop, hblank⟩ | ⟨hf, -⟩)
      · obtain rfl := hv.unique hw
        exact ⟨hop, hhop, hblank⟩
      · exact absurd (hf v hv) hne
  · rw [hkey, trimmed_eq_iff, String.toList_empty, trims_nil_iff]
    constructor
    · intro hblank
      exact .inr ⟨hf, v, hv, hne, hblank⟩
    · rintro (⟨w, hop, hw, hwne, -⟩ | ⟨-, w, hw, -, hblank⟩)
      · exact absurd (hf w hw) hwne
      · obtain rfl := hv.unique hw
        exact hblank
  · rw [hkey]
    constructor
    · exact fun h => absurd h (isFirstOf_peer peer).ne_empty
    · rintro (⟨w, hop, hw, hwne, -⟩ | ⟨-, w, hw, hwne, -⟩)
      · exact absurd (hf w hw) hwne
      · exact absurd (hr w hw) hwne

/-- The key of a client whose first header for forwarded addresses is not empty. -/
theorem clientKey_of_isFirstValue (hv : IsFirstValue headers "x-forwarded-for" v) (hne : v ≠ "") :
    clientKey headers peer = firstHop v := by
  rcases clientKey_cases headers peer with ⟨w, hw, -, hkey⟩ | ⟨hf, -⟩
  · rw [hkey, hv.unique hw]
  · exact absurd (hf v hv) hne

/-- **A client has one address it is known by, which is never empty; that address is the key unless the
    header that decides is hollow.** Then, and only then, the key is empty. Further hops that are written
    on to a header for forwarded addresses leave the key as it is; only if that header is the first of
    its kind and empty, they empty the key. -/
theorem clientKey_isKnownBy_iff (headers : Headers) (peer : Option String) :
    (∃ address, address ≠ "" ∧ ∀ a, IsKnownBy headers peer a ↔ a = address) ∧
      (IsKnownBy headers peer (clientKey headers peer) ↔ ¬IsHollow headers) ∧
      (clientKey headers peer = "" ↔ IsHollow headers) ∧
      ∀ before n v after hops, headers = before ++ (n, v) :: after →
        n.toLower = "x-forwarded-for" →
        (clientKey (before ++ (n, v ++ "," ++ hops) :: after) peer = clientKey headers peer ↔
          (v = "" → (∀ h ∈ before, h.1.toLower ≠ "x-forwarded-for") → IsHollow headers)) := by
  refine ⟨?_, ?_, clientKey_eq_empty_iff headers peer, ?_⟩
  · obtain ⟨address, haddress⟩ := exists_isKnownBy headers peer
    refine ⟨address, haddress.ne_empty, fun a => ⟨fun ha => ha.unique haddress, ?_⟩⟩
    rintro rfl
    exact haddress
  · rw [← clientKey_eq_empty_iff _ peer]
    exact ⟨IsFirstOf.ne_empty, isKnownBy_clientKey⟩
  · rintro before n v after hops rfl hn
    by_cases hbefore : ∀ h ∈ before, h.1.toLower ≠ "x-forwarded-for"
    · have hold : IsFirstValue (before ++ (n, v) :: after) "x-forwarded-for" v :=
        ⟨before, n, after, rfl, hn, hbefore⟩
      have hnew : IsFirstValue (before ++ (n, v ++ "," ++ hops) :: after) "x-forwarded-for"
          (v ++ "," ++ hops) :=
        ⟨before, n, after, rfl, hn, hbefore⟩
      rw [clientKey_of_isFirstValue hnew (by simp), firstHop_append]
      by_cases hv : v = ""
      · subst hv
        rw [← clientKey_eq_empty_iff _ peer]
        exact ⟨fun h _ _ => h.symm, fun h => (h rfl hbefore).symm⟩
      · rw [clientKey_of_isFirstValue hold hv]
        exact ⟨fun _ h => absurd h hv, fun _ => rfl⟩
    · have hf : ∃ x ∈ before, x.1.toLower = "x-forwarded-for" := by simpa using hbefore
      have hother : n.toLower ≠ "x-real-ip" := by
        rw [hn]
        decide
      rw [clientKey, clientKey, header?_eq_of_hidden (fun _ => hf) _ v,
        header?_eq_of_hidden (fun hr => absurd hr hother) _ v]
      exact ⟨fun _ _ h => absurd h hbefore, fun _ => rfl⟩

/-- Headers in which addresses to forward for stand between a real address and an empty header of
    their own kind. -/
def forwardedAmong (addresses : String) : Headers :=
  [("X-Real-IP", "9.9.9.9"), ("X-FORWARDED-FOR", addresses), ("x-forwarded-for", "")]

/-- A further hop leaves the key as it is. -/
theorem clientKey_forwarded_further :
    "X-FORWARDED-FOR".toLower = "x-forwarded-for" ∧
      clientKey (forwardedAmong ("\u00a01.2.3.4\t" ++ "," ++ " 5.6.7.8")) none = "1.2.3.4" := by
  have hn : "X-FORWARDED-FOR".toLower = "x-forwarded-for" := by decide +kernel
  have hfurther := (clientKey_isKnownBy_iff (forwardedAmong "\u00a01.2.3.4\t") none).2.2.2
    [("X-Real-IP", "9.9.9.9")] _ _ _ " 5.6.7.8" rfl hn
  have hne : "\u00a01.2.3.4\t" ≠ "" := by decide
  have hkey : clientKey (forwardedAmong "\u00a01.2.3.4\t") none = "1.2.3.4" := by decide +kernel
  exact ⟨hn, (hfurther.mpr fun hv => absurd hv hne).trans hkey⟩

/-- Headers with a comma in front of the first hop. -/
def commaLed : Headers :=
  [("X-Forwarded-For", ",1.1.1.1"), ("X-Real-IP", "9.9.9.9")]

/-- The comma makes the key empty, although the client is known by its real address. -/
theorem clientKey_commaLed :
    clientKey commaLed (some "10.0.0.1") = "" ∧
      IsKnownBy commaLed (some "10.0.0.1") "9.9.9.9" := by
  have hforwarded : IsFirstValue commaLed "x-forwarded-for" ",1.1.1.1" :=
    header?_eq_some_iff.mp (by decide +kernel)
  have hreal : IsFirstValue commaLed "x-real-ip" "9.9.9.9" :=
    header?_eq_some_iff.mp (by decide +kernel)
  have hhop : firstHop ",1.1.1.1" = "" := by decide +kernel
  have haddress : trimmed "9.9.9.9" = "9.9.9.9" := by decide +kernel
  refine ⟨by decide +kernel, .there ?_ (.here ?_ (by decide))⟩
  · intro b hb
    exact ((isGiven_iff (fun v a => firstHop_eq_iff) hforwarded).mp hb).symm.trans hhop
  · exact (isGiven_iff (fun v a => trimmed_eq_iff) hreal).mpr haddress

end Almanac.Service
