import Almanac.Proofs.Service.LocalTime

/-!
# What an answer says

A phrase is answered with one of three bodies: that of a scheduled time, of a time that is not
acceptable, or of a phrase that is not understood. Which one it is, and every value in it, is decided
by what is found about the phrase at the reference in the zone of the request.
-/

namespace Almanac.Service

open Calendar Decimal Json Phrase Record

variable {site : Site} {l : Limiter} {r : Request} {a : Answer}
  {phrase utc words why : String} {trust : Binary64} {here : Instant}

/-! ### Bodies -/

/-- The members of the body for a scheduled time. -/
def scheduledMembers (utc words : String) (trust : Binary64) : List Member :=
  [ ("success", .bool true)
  , ("datetime", .str utc)
  , ("interpretation", .str words)
  , ("confidence", .float trust) ]

/-- The members of the body for a time that is not acceptable. -/
def unacceptableMembers (why : String) : List Member :=
  [("success", .bool false), ("error", .str why), ("suggestions", suggestionsJson)]

/-- The members of the body for a phrase that is not understood, in which there is no trust. -/
def notUnderstoodMembers (why : String) : List Member :=
  [ ("success", .bool false)
  , ("interpretation", .str "Unable to parse")
  , ("confidence", .float .zero)
  , ("error", .str why)
  , ("suggestions", suggestionsJson) ]

/-- The members of the body of an answer. -/
def Answer.members : Answer → List Member
  | .scheduled utc words trust => scheduledMembers utc words (hundredths trust)
  | .unacceptable why          => unacceptableMembers why
  | .notUnderstood why         => notUnderstoodMembers why.message

theorem Answer.json_eq (a : Answer) : a.json = .obj a.members := by
  have hzero : hundredths (confidence none) = .zero := by decide +kernel
  cases a with
  | scheduled utc words trust => rfl
  | unacceptable why => rfl
  | notUnderstood why =>
    rw [Answer.json, hzero]
    rfl

theorem Answer.members_eq_scheduled_iff :
    a.members = scheduledMembers utc words trust ↔
      ∃ n, a = .scheduled utc words n ∧ trust = hundredths n := by
  cases a with
  | scheduled utc' words' n =>
    simp only [Answer.members, scheduledMembers, List.cons.injEq, Prod.mk.injEq, Json.str.injEq,
      Json.float.injEq, true_and, and_true, Answer.scheduled.injEq]
    constructor
    · rintro ⟨rfl, rfl, rfl⟩
      exact ⟨n, ⟨rfl, rfl, rfl⟩, rfl⟩
    · rintro ⟨_, ⟨rfl, rfl, rfl⟩, rfl⟩
      exact ⟨rfl, rfl, rfl⟩
  | unacceptable why => simp [Answer.members, scheduledMembers, unacceptableMembers]
  | notUnderstood why => simp [Answer.members, scheduledMembers, notUnderstoodMembers]

theorem Answer.members_eq_unacceptable_iff :
    a.members = unacceptableMembers why ↔ a = .unacceptable why := by
  cases a <;>
    simp [Answer.members, scheduledMembers, unacceptableMembers, notUnderstoodMembers]

theorem Answer.members_eq_notUnderstood_iff :
    a.members = notUnderstoodMembers why ↔ ∃ f, a = .notUnderstood f ∧ why = f.message := by
  cases a with
  | notUnderstood f => simp [Answer.members, notUnderstoodMembers, eq_comm]
  | scheduled utc words n => simp [Answer.members, scheduledMembers, notUnderstoodMembers]
  | unacceptable why => simp [Answer.members, unacceptableMembers, notUnderstoodMembers]

variable {members : List Member}

/-- Whether a reply has the status of success, and as its body an object of just these members. -/
def Reply.Has (reply : Reply) (members : List Member) : Prop :=
  reply.status = 200 ∧ reply.content = .json (.obj members)

theorem has_answered_iff : (Reply.answered a).Has members ↔ a.members = members := by
  simp [Reply.Has, Reply.status, Reply.content, Answer.json_eq]

/-! ### Shapes of bodies -/

/-- The shape of the body of an answer. -/
inductive Shape where
  | scheduled
  | unacceptable
  | notUnderstood
  deriving DecidableEq

/-- The names of the members of a body. -/
def Shape.names : Shape → List String
  | .scheduled     => ["success", "datetime", "interpretation", "confidence"]
  | .unacceptable  => ["success", "error", "suggestions"]
  | .notUnderstood => ["success", "interpretation", "confidence", "error", "suggestions"]

/-- Whether some members are those of a body of a shape. -/
def Shape.Fits (s : Shape) (members : List Member) : Prop :=
  members.map Prod.fst = s.names.map some

/-- Whether a shape is called for by what is found about a phrase. -/
def Shape.IsFound (phrase : String) (here : Instant) : Shape → Prop
  | .scheduled =>
    ∃ category i words, interpret Row.all phrase.toList here = .ok (.resolved category i words) ∧
      judge i here = .ok .accepted
  | .unacceptable =>
    ∃ category i words v, interpret Row.all phrase.toList here = .ok (.resolved category i words) ∧
      judge i here = .ok v ∧ v ≠ .accepted
  | .notUnderstood =>
    ∃ why, interpret Row.all phrase.toList here = .ok (.failed why)

variable {s s' : Shape}

/-- The shape of an answer. -/
def Answer.shape : Answer → Shape
  | .scheduled ..    => .scheduled
  | .unacceptable _  => .unacceptable
  | .notUnderstood _ => .notUnderstood

theorem Shape.names_injective : Function.Injective Shape.names := by
  intro s s' h
  cases s <;> cases s' <;> simp [Shape.names] at h ⊢

theorem Shape.Fits.unique (h : s.Fits members) (h' : s'.Fits members) : s = s' := by
  have hmap : s.names.map some = s'.names.map some := h.symm.trans h'
  exact Shape.names_injective (List.map_injective_iff.mpr (Option.some_injective _) hmap)

theorem Answer.shape_fits (a : Answer) : a.shape.Fits a.members := by
  cases a <;> rfl

theorem Answer.fits_iff : s.Fits a.members ↔ s = a.shape := by
  constructor
  · intro h
    exact h.unique a.shape_fits
  · rintro rfl
    exact a.shape_fits

/-- A body tells of a time exactly if it has neither suggestions nor an error, which go together. -/
theorem Shape.Fits.datetime_iff (h : s.Fits members) :
    (some "datetime" ∈ members.map Prod.fst ↔
        some "suggestions" ∉ members.map Prod.fst ∧ some "error" ∉ members.map Prod.fst) ∧
      (some "suggestions" ∈ members.map Prod.fst ↔ some "error" ∈ members.map Prod.fst) := by
  rw [h]
  cases s <;> decide

/-! ### Answers to a phrase -/

/-- Whether looking at a phrase comes to an end: interpreting it does, judging the instant that it
    names does, and an acceptable instant is written in UTC. -/
def Completes (phrase : String) (here : Instant) : Prop :=
  ∃ o, interpret Row.all phrase.toList here = .ok o ∧
    ∀ category i words, o = .resolved category i words →
      ∃ v, judge i here = .ok v ∧ (v = .accepted → ∃ utc, i.utcText = .ok utc)

/-- Only an answer has the status of success. -/
theorem status_replyToPhrase_iff :
    (replyToPhrase phrase here).status = 200 ↔ ∃ a, Finds phrase here (.answered a) := by
  constructor
  · intro h
    have hfinds := finds_replyToPhrase phrase here
    cases hreply : replyToPhrase phrase here with
    | answered a => exact ⟨a, hreply ▸ hfinds⟩
    | _ =>
      rw [hreply] at h hfinds
      cases hfinds <;> cases h
  · rintro ⟨a, ha⟩
    rw [ha.eq]
    rfl

theorem has_replyToPhrase_iff :
    (replyToPhrase phrase here).Has members ↔
      ∃ a, Finds phrase here (.answered a) ∧ a.members = members := by
  constructor
  · intro h
    obtain ⟨a, ha⟩ := status_replyToPhrase_iff.mp h.1
    rw [ha.eq, has_answered_iff] at h
    exact ⟨a, ha, h⟩
  · rintro ⟨a, ha, hmembers⟩
    rwa [ha.eq, has_answered_iff]

theorem exists_finds_iff : (∃ a, Finds phrase here (.answered a)) ↔ Completes phrase here := by
  constructor
  · rintro ⟨a, ha⟩
    cases ha with
    | notUnderstood hi => exact ⟨_, hi, by simp⟩
    | @unacceptable category i words v why hi hj hv =>
      refine ⟨_, hi, ?_⟩
      rintro _ _ _ ⟨⟩
      refine ⟨v, hj, ?_⟩
      rintro rfl
      cases hv
    | scheduled hi hj hu =>
      refine ⟨_, hi, ?_⟩
      rintro _ _ _ ⟨⟩
      exact ⟨_, hj, fun _ => ⟨_, hu⟩⟩
  · rintro ⟨o, hi, ho⟩
    cases o with
    | failed why => exact ⟨_, .notUnderstood hi⟩
    | resolved category i words =>
      obtain ⟨v, hj, hutc⟩ := ho category i words rfl
      cases hv : v.reason? with
      | some why => exact ⟨_, .unacceptable hi hj hv⟩
      | none =>
        obtain rfl := Verdict.reason?_eq_none_iff.mp hv
        obtain ⟨utc, hu⟩ := hutc rfl
        exact ⟨_, .scheduled hi hj hu⟩

/-- The shape of an answer is the one that is called for, and no other is. -/
theorem Finds.isFound_iff (h : Finds phrase here (.answered a)) :
    s.IsFound phrase here ↔ s = a.shape := by
  cases h with
  | notUnderstood hi => cases s <;> simp [Shape.IsFound, Answer.shape, hi]
  | @unacceptable category i words v why hi hj hv =>
    have hne : v ≠ .accepted := by
      rintro rfl
      cases hv
    cases s <;> simp [Shape.IsFound, Answer.shape, hi, hj, hne]
  | scheduled hi hj hu => cases s <;> simp [Shape.IsFound, Answer.shape, hi, hj]

theorem has_scheduled_iff :
    (replyToPhrase phrase here).Has (scheduledMembers utc words trust) ↔
      ∃ category i, interpret Row.all phrase.toList here = .ok (.resolved category i words) ∧
        judge i here = .ok .accepted ∧ i.utcText = .ok utc ∧
          trust = hundredths category.confidence := by
  rw [has_replyToPhrase_iff]
  constructor
  · rintro ⟨a, ha, hmembers⟩
    obtain ⟨n, rfl, rfl⟩ := Answer.members_eq_scheduled_iff.mp hmembers
    cases ha with
    | scheduled hi hj hu => exact ⟨_, _, hi, hj, hu, rfl⟩
  · rintro ⟨category, i, hi, hj, hu, rfl⟩
    exact ⟨_, .scheduled hi hj hu, rfl⟩

theorem has_unacceptable_iff :
    (replyToPhrase phrase here).Has (unacceptableMembers why) ↔
      ∃ category i words v,
        interpret Row.all phrase.toList here = .ok (.resolved category i words) ∧
          judge i here = .ok v ∧ v.reason? = some why := by
  rw [has_replyToPhrase_iff]
  constructor
  · rintro ⟨a, ha, hmembers⟩
    obtain rfl := Answer.members_eq_unacceptable_iff.mp hmembers
    cases ha with
    | unacceptable hi hj hv => exact ⟨_, _, _, _, hi, hj, hv⟩
  · rintro ⟨category, i, words, v, hi, hj, hv⟩
    exact ⟨_, .unacceptable hi hj hv, rfl⟩

theorem has_notUnderstood_iff :
    (replyToPhrase phrase here).Has (notUnderstoodMembers why) ↔
      ∃ f, interpret Row.all phrase.toList here = .ok (.failed f) ∧ why = f.message := by
  rw [has_replyToPhrase_iff]
  constructor
  · rintro ⟨a, ha, hmembers⟩
    obtain ⟨f, rfl, rfl⟩ := Answer.members_eq_notUnderstood_iff.mp hmembers
    cases ha with
    | notUnderstood hi => exact ⟨f, hi, rfl⟩
  · rintro ⟨f, hi, rfl⟩
    exact ⟨_, .notUnderstood hi, rfl⟩

/-! ### Answers to a request -/

/-- Only a request that passes every check is answered, and then exactly if looking at its phrase
    comes to an end. The body is that of a scheduled time exactly if the phrase names an acceptable
    instant, with that instant in UTC; that of a time that is not acceptable, with the reason,
    exactly if it names another; and that of a phrase that is not understood exactly if it names
    none. It has no other members, and tells of a time exactly if it has neither suggestions nor an
    error. -/
theorem answer_says (site : Site) (l : Limiter) (hpath : r.path = phrasePath)
    (hmethod : r.method = "POST") :
    ((step site l r).2.status = 200 → ∃ q here, Asks site l r q here) ∧
      ∀ q here, Asks site l r q here →
        ((step site l r).2.status = 200 ↔ Completes q.phrase here) ∧
        (∀ utc words trust, (step site l r).2.Has (scheduledMembers utc words trust) ↔
          ∃ category i, interpret Row.all q.phrase.toList here = .ok (.resolved category i words) ∧
            judge i here = .ok .accepted ∧ i.utcText = .ok utc ∧
              trust = hundredths category.confidence) ∧
        (∀ why, (step site l r).2.Has (unacceptableMembers why) ↔
          ∃ category i words v,
            interpret Row.all q.phrase.toList here = .ok (.resolved category i words) ∧
              judge i here = .ok v ∧ v.reason? = some why) ∧
        (∀ why, (step site l r).2.Has (notUnderstoodMembers why) ↔
          ∃ f, interpret Row.all q.phrase.toList here = .ok (.failed f) ∧ why = f.message) ∧
        ((step site l r).2.status = 200 → ∃ members, (step site l r).2.Has members ∧
          (∃! s : Shape, s.Fits members) ∧
          (∀ s : Shape, s.Fits members ↔ s.IsFound q.phrase here) ∧
          (some "datetime" ∈ members.map Prod.fst ↔
            some "suggestions" ∉ members.map Prod.fst ∧ some "error" ∉ members.map Prod.fst) ∧
          (some "suggestions" ∈ members.map Prod.fst ↔ some "error" ∈ members.map Prod.fst)) := by
  constructor
  · intro h
    obtain ⟨a, ha⟩ := exists_answered_of_status hpath hmethod h
    obtain ⟨q, here, hasks, -⟩ := exists_asks_of_step ha
    exact ⟨q, here, hasks⟩
  intro q here hasks
  rw [hasks.step_eq]
  refine ⟨status_replyToPhrase_iff.trans exists_finds_iff, fun _ _ _ => has_scheduled_iff,
    fun _ => has_unacceptable_iff, fun _ => has_notUnderstood_iff, ?_⟩
  intro h
  obtain ⟨a, ha⟩ := status_replyToPhrase_iff.mp h
  refine ⟨a.members, has_replyToPhrase_iff.mpr ⟨a, ha, rfl⟩, ?_, ?_, a.shape_fits.datetime_iff⟩
  · exact ⟨a.shape, a.shape_fits, fun s hs => hs.unique a.shape_fits⟩
  · intro s
    rw [Answer.fits_iff, ha.isFound_iff]

/-- A time in Paris, where it is an hour later than in UTC on the night of the change. -/
def parisNight : Instant :=
  ⟨springTime 90 (by decide), .zoned .paris, false⟩

/-- The present moment is understood, and is not in the future. -/
theorem now_is_not_acceptable :
    (nightRequest "now").path = phrasePath ∧ (nightRequest "now").method = "POST" ∧
      Asks openSite freshLimiter (nightRequest "now") ⟨"now", .named "Europe/Paris"⟩ parisNight ∧
      (step openSite freshLimiter (nightRequest "now")).2.Has
        (unacceptableMembers "Schedule time must be in the future") := by
  have hasks : Asks openSite freshLimiter (nightRequest "now") ⟨"now", .named "Europe/Paris"⟩
      parisNight := by
    refine ⟨⟨rfl, rfl⟩, by decide +kernel, ⟨99, by decide +kernel⟩, by decide +kernel, .paris, ?_, ?_⟩
    · decide +kernel
    · decide +kernel
  have hi : interpret Row.all "now".toList parisNight =
      .ok (.resolved .now parisNight "In 0 minutes (1:30 AM)") := by decide +kernel
  have hj : judge parisNight parisNight = .ok .past := by decide +kernel
  obtain ⟨-, hsays⟩ := answer_says openSite freshLimiter (r := nightRequest "now") rfl rfl
  obtain ⟨-, -, hunacceptable, -⟩ := hsays _ _ hasks
  exact ⟨rfl, rfl, hasks, (hunacceptable _).mpr ⟨_, _, _, _, hi, hj, rfl⟩⟩

end Almanac.Service
