import StoreBindings.Proofs.Boot.Splicing

/-!
# The test on the text

Before a module is parsed, its text is tested for something like the boot call, since parsing takes
time and most modules do not boot anything. A module that fails the test is left alone, even if it has
a boot call that is written in a way the test does not know. `addressLoader_eq_untested_iff` says when
the test makes a difference, and which spellings of a call it knows.
-/

namespace StoreBindings.Boot

/-- What is made of a module if its text is not tested first. -/
def addressUntested (code id : List Char) (loader : Path) : Option (List Char) :=
  if isEligible id then addressCalls code id loader else none

/-- The boot call is mentioned between two parts of a text: it begins the second part, and no word ends
with the first one. -/
def MentionsAt (before after : List Char) : Prop :=
  startsCall after = true ∧ before.getLast?.any Text.isWordCharacter = false

lemma getLast?_cons_or (c : Char) (cs : List Char) (previous : Option Char) :
    (c :: cs).getLast?.or previous = cs.getLast?.or (some c) := by
  rw [List.getLast?_cons]
  cases cs.getLast? <;> rfl

lemma mentionsAfter_eq_true_iff {previous : Option Char} {cs : List Char} :
    mentionsAfter previous cs = true ↔ ∃ before after, cs = before ++ after ∧
      startsCall after = true ∧ (before.getLast?.or previous).any Text.isWordCharacter = false := by
  -- the character in front changes from step to step
  induction cs generalizing previous with
  | nil =>
    constructor
    · intro h
      cases h
    · rintro ⟨before, after, heq, hcall, -⟩
      rw [(List.append_eq_nil_iff.1 heq.symm).2] at hcall
      cases hcall
  | cons c cs ih =>
    rw [mentionsAfter, Bool.or_eq_true, ih, Bool.and_eq_true, Bool.not_eq_true']
    constructor
    · rintro (⟨hcall, hword⟩ | ⟨before, after, rfl, hcall, hword⟩)
      · exact ⟨[], c :: cs, rfl, hcall, hword⟩
      · exact ⟨c :: before, after, rfl, hcall, by rwa [getLast?_cons_or]⟩
    · rintro ⟨before, after, heq, hcall, hword⟩
      cases before with
      | nil =>
        obtain rfl : c :: cs = after := heq
        exact .inl ⟨hcall, hword⟩
      | cons d before =>
        obtain ⟨rfl, rfl⟩ := List.cons.inj heq
        exact .inr ⟨before, after, rfl, hcall, by rwa [getLast?_cons_or] at hword⟩

/-- The test on the text finds a mention of the call wherever it is. -/
lemma mentionsBoot_eq_true_iff {cs : List Char} :
    mentionsBoot cs = true ↔ ∃ before after, cs = before ++ after ∧ MentionsAt before after := by
  rw [mentionsBoot, mentionsAfter_eq_true_iff]
  simp only [Option.or_none, MentionsAt]

/-- Testing the text first changes nothing exactly if the boot call is mentioned in each module that is
looked at and has such a call. A call counts as a mention of itself if it is plain and no word ends
where it begins. -/
theorem addressLoader_eq_untested_iff (code id : List Char) (loader : Path) :
    (addressLoader code id loader = addressUntested code id loader ↔
      (isEligible id = true → bareCalls (rootOf code id) ≠ [] →
        ∃ before after, code = before ++ after ∧ MentionsAt before after)) ∧
    ∀ span ∈ bareCalls (rootOf code id), ∃ before after, ∃ s : Spelling,
      code = before ++ s.text ++ after ∧ span = .behind before s.text ∧
        (MentionsAt before (s.text ++ after) ↔
          s.IsPlain ∧ before.getLast?.any Text.isWordCharacter = false) := by
  constructor
  · rw [← mentionsBoot_eq_true_iff, addressLoader_eq, addressUntested, addressCalls_eq]
    by_cases hid : isEligible id = true
    · by_cases hcalls : bareCalls (rootOf code id) = [] <;>
        by_cases hmentions : mentionsBoot code = true <;> simp [hid, hcalls, hmentions]
    · simp [hid]
  · intro span hspan
    obtain ⟨before, after, s, hcode, rfl⟩ := writes_of_mem_bareCalls hspan
    refine ⟨before, after, s, hcode, rfl, ?_⟩
    rw [MentionsAt, startsCall_text_append]

/-- A comment between the words of the only call keeps the test from finding it. -/
theorem addressLoader_ne_untested_of_comment :
    let code := "StoreManager./* the boot call */boot();\n".toList
    let id := "/app/src/main.ts".toList
    let loader : Path := ⟨"/app/src/Stores/Generated/StoreLoader.ts".toList⟩
    addressLoader code id loader = none ∧ addressUntested code id loader =
      some ("StoreManager.boot(import.meta.glob('./Stores/Generated/StoreLoader.ts', ".toList ++
        "\x7beager:true\x7d));\n".toList) := by
  decide +kernel

end StoreBindings.Boot
