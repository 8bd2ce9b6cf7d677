import HttpContract.Binding.Parser
import HttpContract.Proofs.Body.MemberValues
import HttpContract.Proofs.Decimal

/-!
# Members of enumerations in parameters

A parameter names the member of an enumeration by the text of the member's value, or else by its
name. A text has no type, so that values of several types may be written alike: then the first of
their members is meant. No member is found behind one whose value has too many digits to be written.
And an empty text is no value of an enumeration, even where it is listed as one.
-/

namespace HttpContract

/-- The text that a client sends for a JSON value of the document: a text as it is, and anything
else as the document shows it. -/
def Json.sentText : Json → String
  | .text s => s
  | j => j.write (JsonStyle.document none)

/-- The power of ten that a double is laid out by; zero and what is not finite have none. -/
def Double.power? : Double → Option Int
  | .finite _ mantissa exponent =>
    if mantissa = 0 then none
    else
      let (d, place) := Double.shortest mantissa exponent
      some (place + (Nat.toDigits 10 d).length - 1)
  | .infinite _ | .nan => none

/-- The values that a message writes as the document shows them: texts, integers that can be
written, identifiers, dates, and the finite doubles but for some small ones, of which the document
shows one more as a plain number and otherwise shortens the power of ten. -/
inductive Value.IsSentAlike : Value → Prop
  | text (s : String) : IsSentAlike (.text s)
  | int {n : Int} (hn : (Number.int n).isWritable = true) : IsSentAlike (.number (.int n))
  | float {x : Double} (hfinite : x.isFinite = true)
      (hpower : ∀ k, x.power? = some k → k < -9 ∨ -5 < k) : IsSentAlike (.number (.float x))
  | uuid (u : Uuid) : IsSentAlike (.uuid u)
  | date (d : Date) : IsSentAlike (.date d)

/-- A power of ten of two digits needs no zero in front. -/
theorem FloatLayout.padded_two {k : Int} (hk : 10 ≤ k.natAbs) :
    padded 2 (Nat.toDigits 10 k.natAbs) = padded 1 (Nat.toDigits 10 k.natAbs) := by
  have hlength : 2 ≤ (Nat.toDigits 10 k.natAbs).length := by
    by_contra hshort
    have hle : (Nat.toDigits 10 k.natAbs).length ≤ 1 := by omega
    have hsmall := (Nat.length_toDigits_le_iff (by decide) (by decide)).mp hle
    omega
  have htwo : 2 - (Nat.toDigits 10 k.natAbs).length = 0 := by omega
  have hone : 1 - (Nat.toDigits 10 k.natAbs).length = 0 := by omega
  rw [padded, padded, htwo, hone]

/-- Digits are laid out alike in messages and in the document, but for some small powers of ten. -/
theorem messageFloats_layout (ds : List Char) {k : Int} (hk : k < -9 ∨ -5 < k) :
    (if messageFloats.leastPositional ≤ k ∧ k < messageFloats.firstScientific then
        FloatLayout.positional ds (k + 1)
      else FloatLayout.scientific messageFloats.exponentWidth ds k) =
      if JsonStyle.documentFloats.leastPositional ≤ k ∧
          k < JsonStyle.documentFloats.firstScientific then FloatLayout.positional ds (k + 1)
      else FloatLayout.scientific JsonStyle.documentFloats.exponentWidth ds k := by
  change (if -4 ≤ k ∧ k < 16 then FloatLayout.positional ds (k + 1)
      else FloatLayout.scientific 2 ds k) =
    if -5 ≤ k ∧ k < 16 then FloatLayout.positional ds (k + 1) else FloatLayout.scientific 1 ds k
  by_cases hplain : -4 ≤ k ∧ k < 16
  · rw [if_pos hplain, if_pos ⟨by omega, hplain.2⟩]
  · rw [if_neg hplain, if_neg (by omega), FloatLayout.scientific, FloatLayout.scientific,
      FloatLayout.padded_two (by omega)]

/-- A finite double is written alike in messages and in the document, but for those with some small
powers of ten. -/
theorem messageFloats_render {x : Double} (hfinite : x.isFinite = true)
    (hpower : ∀ k, x.power? = some k → k < -9 ∨ -5 < k) :
    messageFloats.render x = JsonStyle.documentFloats.render x := by
  cases x with
  | infinite negative | nan => cases hfinite
  | finite negative mantissa exponent =>
    by_cases hzero : mantissa = 0
    · simp [FloatLayout.render, hzero]
    · let shortest := Double.shortest mantissa exponent
      let ds := Nat.toDigits 10 shortest.1
      have hlayout := messageFloats_layout ds (hpower (shortest.2 + ds.length - 1) (if_neg hzero))
      rw [Int.sub_add_cancel] at hlayout
      unfold FloatLayout.render
      dsimp only
      rw [if_neg hzero, if_neg hzero]
      exact congrArg (fun body => String.ofList (if negative then '-' :: body else body)) hlayout

/-- Such a value stands alone as the text that its JSON form is sent as. -/
theorem Value.IsSentAlike.plainText_eq {C : Classes} {v : Value} (hv : v.IsSentAlike) {j : Json}
    (hj : Body.toJson C v = .ok j) : v.plainText = j.sentText := by
  cases hv with
  | float hfinite hpower =>
    cases hj
    exact messageFloats_render hfinite hpower
  | text s | int hn | uuid u | date d =>
    cases hj
    rfl

/-- Such a value has a text. -/
theorem Value.IsSentAlike.hasText {v : Value} (hv : v.IsSentAlike) : v.hasText = true := by
  cases hv with
  | int hn => exact hn
  | text s | float hfinite hpower | uuid u | date d => rfl

namespace Body

/-- A member is known by its value in the enumeration. -/
theorem memberValue_inj {name : String} {e : Enumeration} {m other : String × Value} :
    memberValue name e m = memberValue name e other ↔ m = other := by
  rw [memberValue, memberValue, Value.member.injEq, Prod.ext_iff]
  simp

end Body

namespace Binding

variable {name s : String} {e : Enumeration}

/-- The text of a member's value names the first member whose value has this text, unless one in
front of it has a value without a text. -/
theorem member?_eq_some_iff {m : String × Value} (hsome : ∃ m ∈ e.members, m.2.plainText = s) :
    member? name e s = some (Body.memberValue name e m) ↔
      m.2.hasText = true ∧ e.IsFirst (fun v => !v.hasText || v.plainText = s) m := by
  obtain ⟨other, hother, htext⟩ := hsome
  rw [Enumeration.isFirst_iff, member?]
  cases hfound : e.members.find? fun m => !m.2.hasText || m.2.plainText = s with
  | none =>
    rw [List.find?_eq_none] at hfound
    exact absurd (by simp [htext]) (hfound other hother)
  | some first =>
    dsimp only
    rw [Option.some_inj]
    constructor
    · intro h
      split at h
      · rename_i hfirst
        obtain rfl := Body.memberValue_inj.mp (Option.some.inj h)
        exact ⟨hfirst, rfl⟩
      · cases h
    · rintro ⟨hm, rfl⟩
      rw [if_pos hm]

/-- No text names a member behind one whose value has no text. -/
theorem member?_eq_none {front behind : List (String × Value)} {m : String × Value}
    (hmembers : e.members = front ++ m :: behind) (hm : m.2.hasText = false)
    (hfront : ∀ earlier ∈ front, earlier.2.plainText ≠ s) : member? name e s = none := by
  have hstop (first : String × Value)
      (hfound : e.members.find? (fun m => !m.2.hasText || m.2.plainText = s) = some first) :
      first.2.hasText = false := by
    rw [hmembers, List.find?_append] at hfound
    cases hearlier : front.find? fun m => !m.2.hasText || m.2.plainText = s with
    | some earlier =>
      rw [hearlier] at hfound
      obtain rfl : earlier = first := Option.some.inj hfound
      simpa [hfront _ (List.mem_of_find?_eq_some hearlier)] using List.find?_some hearlier
    | none =>
      rw [hearlier, Option.none_or, List.find?_cons_of_pos (by simp [hm])] at hfound
      exact Option.some.inj hfound ▸ hm
  unfold member?
  split
  · rename_i first hfound
    rw [hstop first hfound]
    rfl
  · rename_i hnone
    have hmem : m ∈ e.members := hmembers ▸ List.mem_append_right _ List.mem_cons_self
    exact absurd (by simp [hm]) (List.find?_eq_none.mp hnone m hmem)

end Binding

namespace ScalarParser

variable {C : Classes} {name field text : String} {e : Enumeration} {allowEmpty : Bool} {v : Value}

/-- The text of a parameter is converted to the member that it names. -/
theorem convert?_enumeration (he : C.enumeration? name = some e) (text : String) :
    Binding.convert? C (.enumeration name) text = Binding.member? name e text := by
  rw [Binding.convert?, he]
  rfl

/-- An enumeration's parser gives a value for the texts that are not empty and name a member. -/
theorem parseOne_eq_some_iff (he : C.enumeration? name = some e) :
    parseOne C ⟨.enumeration name, [], allowEmpty⟩ field text = .ok (some v) ↔
      text ≠ "" ∧ Binding.member? name e text = some v := by
  unfold parseOne
  dsimp only
  rw [convert?_enumeration he]
  by_cases hempty : text = ""
  · subst hempty
    cases allowEmpty <;> simp
  · rw [if_neg (by simp [hempty])]
    cases Binding.member? name e text with
    | none => simp
    | some w => simp [hempty, applyConstraints, applyInOrder, Except.map]

/-- Listed members as parameters. Take an enumeration whose schema is registered after calls that
all end well, the values that the schema lists, and a member whose value is written as the document
shows it. The text that is sent for the value listed for this member is parsed as this member just
when it is not empty, and no member in front has a value of the same text or one that cannot be
written. -/
theorem parseOne_listed_iff {calls : List BuildCall} {returned : List Schema} {b : SchemaBuilder}
    (hrun : (BuildCall.performAll C calls).run {} = .ok returned b)
    (hregistered : name ∈ b.registry.entries.map (·.owner)) {s : Schema}
    (hs : b.registry.schema? (C.schemaNameOf name) = some s) (he : C.enumeration? name = some e)
    {listed : List Json} (hlisted : s.enumeration = some listed) {m : String × Value} {j : Json}
    (hm : (m, j) ∈ e.members.zip listed) (halike : m.2.IsSentAlike) (allowEmpty : Bool)
    (field : String) :
    parseOne C ⟨.enumeration name, [], allowEmpty⟩ field j.sentText =
        .ok (some (Body.memberValue name e m)) ↔
      j.sentText ≠ "" ∧ ∃ front behind, e.members = front ++ m :: behind ∧
        ∀ earlier ∈ front, earlier.2.hasText = true ∧ earlier.2.plainText ≠ j.sentText := by
  obtain ⟨hvalues, _⟩ := BuildCall.listed_performAll hrun hregistered hs he hlisted
  have hform : Body.toJson C m.2 = .ok j := of_mem_zip_mapM hvalues hm
  have htext : m.2.plainText = j.sentText := halike.plainText_eq hform
  have hmem : m ∈ e.members := (List.of_mem_zip hm).1
  rw [parseOne_eq_some_iff he, Binding.member?_eq_some_iff ⟨m, hmem, htext⟩]
  simp [Enumeration.IsFirst, htext, halike.hasText]

end ScalarParser

/-- The date of a milestone is sent as the text that the schema lists. -/
theorem ScalarParser.parseOne_listed_iff_milestones :
    let newYear : String × Value := ("NEW_YEAR", .date ⟨2024, 1, 1⟩)
    ∃ returned b s,
      (BuildCall.performAll Classes.milestones [.hint (.named "Milestone")]).run {} =
        .ok returned b ∧
      b.registry.schema? "Milestone" = some s ∧
      s.enumeration = some [.int 1, .text "2024-01-01"] ∧ newYear.2.IsSentAlike ∧
      parseOne Classes.milestones ⟨.enumeration "Milestone", [], false⟩ "day" "2024-01-01" =
        .ok (some (.member "Milestone" "NEW_YEAR" .plain newYear.2)) := by
  intro newYear
  obtain ⟨returned, b, s, hrun, hregistered, hs, hlisted⟩ := Classes.registered_milestones
  have hdate : newYear.2.IsSentAlike := .date _
  refine ⟨returned, b, s, hrun, hs, hlisted, hdate, ?_⟩
  have hparsed := parseOne_listed_iff hrun hregistered hs rfl hlisted (m := newYear)
    (List.mem_cons_of_mem _ List.mem_cons_self) hdate false "day"
  exact hparsed.mpr ⟨by decide, [("START", .int 1)], [], rfl, by decide⟩

/-- An enumeration with an empty text, a number and the text of this number. -/
def Classes.grades : Classes :=
  ({} : Classes).define
    { name := "Grade",
      body := .enumeration ⟨.plain, [("NONE", .text ""), ("BEST", .int 1), ("TOP", .text "1")]⟩ }

/-- An enumeration of a truth value and a small double, and one of an integer and a text. -/
def Classes.readings (top : Int) : Classes :=
  (({} : Classes).define
    { name := "Reading",
      body := .enumeration ⟨.plain, [("ON", .bool true),
        ("TINY", .number (.float (.ofDecimal false 1 (-7))))]⟩ }).define
    { name := "Height", body := .enumeration ⟨.plain, [("TOP", .int top), ("LOW", .text "low")]⟩ }

/-- The truth value and the small double of readings are listed, and written in another way. -/
theorem Classes.listed_readings (top : Int) :
    let parse := ScalarParser.parseOne (readings top) ⟨.enumeration "Reading", [], false⟩ "reading"
    ∃ returned b reading height,
      (BuildCall.performAll (readings top) [.hint (.named "Reading"), .hint (.named "Height")]).run
        {} = .ok returned b ∧
      b.registry.schema? "Reading" = some reading ∧
      reading.enumeration = some [.bool true, .number (.float (.ofDecimal false 1 (-7)))] ∧
      (Json.bool true).sentText = "true" ∧
      parse "true" = .error (.refused (some "reading") (.unreadable "true")) ∧
      (Json.number (.float (.ofDecimal false 1 (-7)))).sentText = "1e-7" ∧
      parse "1e-7" = .error (.refused (some "reading") (.unreadable "1e-7")) ∧
      b.registry.schema? "Height" = some height ∧
      height.enumeration = some [.int top, .text "low"] := by
  intro parse
  refine ⟨_, _, _, _, rfl, rfl, ?_, rfl, rfl, by decide +kernel, ?_, rfl, ?_⟩
  · rfl
  · rfl
  · rfl

/-- No text names a member of the heights when the top has too many digits. -/
theorem ScalarParser.parseOne_heights {top : Int} (htop : (Number.int top).isWritable = false) :
    parseOne (.readings top) ⟨.enumeration "Height", [], false⟩ "height" "low" =
      .error (.refused (some "height") (.unreadable "low")) := by
  let e : Enumeration := ⟨.plain, [("TOP", .int top), ("LOW", .text "low")]⟩
  have hmembers : e.members = [] ++ ("TOP", .int top) :: [("LOW", .text "low")] := rfl
  have hunnamed : Binding.member? "Height" e "low" = none :=
    Binding.member?_eq_none hmembers htop nofun
  unfold parseOne
  dsimp only
  rw [convert?_enumeration (e := e) rfl, hunnamed]
  rfl

/-- Listed texts that are not parsed as their members: the empty text is refused, the text "1" is
parsed as the member of a number in front, truth values and small doubles are written in another way
than they are listed, and no member is found behind an integer of too many digits. -/
theorem ScalarParser.exists_listed_not_parsed :
    let C := Classes.readings Number.overlong
    let grade := parseOne Classes.grades ⟨.enumeration "Grade", [], false⟩ "grade"
    let reading := parseOne C ⟨.enumeration "Reading", [], false⟩ "reading"
    let height := parseOne C ⟨.enumeration "Height", [], false⟩ "height"
    (∃ returned b s,
      (BuildCall.performAll Classes.grades [.hint (.named "Grade")]).run {} = .ok returned b ∧
      b.registry.schema? "Grade" = some s ∧
      s.enumeration = some [.text "", .int 1, .text "1"] ∧
      (Json.text "").sentText = "" ∧ grade "" = .error (.refused (some "grade") .empty) ∧
      (Json.text "1").sentText = "1" ∧
      grade "1" = .ok (some (.member "Grade" "BEST" .plain (.int 1)))) ∧
    ∃ returned b r h,
      (BuildCall.performAll C [.hint (.named "Reading"), .hint (.named "Height")]).run {} =
        .ok returned b ∧
      b.registry.schema? "Reading" = some r ∧
      r.enumeration = some [.bool true, .number (.float (.ofDecimal false 1 (-7)))] ∧
      (Json.bool true).sentText = "true" ∧
      reading "true" = .error (.refused (some "reading") (.unreadable "true")) ∧
      (Json.number (.float (.ofDecimal false 1 (-7)))).sentText = "1e-7" ∧
      reading "1e-7" = .error (.refused (some "reading") (.unreadable "1e-7")) ∧
      b.registry.schema? "Height" = some h ∧
      h.enumeration = some [.int Number.overlong, .text "low"] ∧
      (Json.text "low").sentText = "low" ∧
      height "low" = .error (.refused (some "height") (.unreadable "low")) := by
  intro C grade reading height
  refine ⟨⟨_, _, _, rfl, rfl, ?_, rfl, rfl, rfl, rfl⟩, ?_⟩
  · rfl
  · obtain ⟨returned, b, r, h, hrun, hr, hreadings, htrue, hon, hsmall, htiny, hh, hheights⟩ :=
      Classes.listed_readings Number.overlong
    exact ⟨returned, b, r, h, hrun, hr, hreadings, htrue, hon, hsmall, htiny, hh, hheights, rfl,
      parseOne_heights Number.isWritable_overlong⟩

end HttpContract
