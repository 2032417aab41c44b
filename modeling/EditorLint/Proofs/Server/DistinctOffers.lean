import EditorLint.Proofs.FindingIndex
import EditorLint.Proofs.Server.CodeAction

/-!
Which offers are answered. Offers are told apart by keys that leave out the edits of batches, and
still no two different batches have one key, because all batches of a request are made of one index.
-/

namespace EditorLint

theorem FixAction.edits_eq_of_batch {policy : BatchPolicy} {file : String} {index : FindingIndex}
    {positionOf : Nat → Nat → Except LintError Nat} {start stop otherStart otherStop : Nat}
    {actions others : List FixAction} {action other : FixAction}
    (assembled : assemble policy file index start stop positionOf = .ok actions)
    (offered : action ∈ actions)
    (assembledToo : assemble policy file index otherStart otherStop positionOf = .ok others)
    (offeredToo : other ∈ others) (batch : action.kind = .fixAllOfRule ∨ action.kind = .fixAllAutoFixable)
    (sameKind : action.kind = other.kind) (sameDescription : action.description = other.description) :
    action.edits = other.edits := by
  rcases batch with ofRule | ofAll
  · obtain ⟨-, rule, -, -, -, rfl⟩ :=
      exists_eq_of_kind_fixAllOfRule assembled offered ofRule
    obtain ⟨-, otherRule, -, -, -, rfl⟩ :=
      exists_eq_of_kind_fixAllOfRule assembledToo offeredToo (sameKind.symm.trans ofRule)
    -- The description names the rule between two fixed texts.
    have same : rule = otherRule := by
      simpa [onFile] using sameDescription
    rw [same]
  · rw [(eq_of_kind_fixAllAutoFixable assembled offered ofAll).2,
      (eq_of_kind_fixAllAutoFixable assembledToo offeredToo (sameKind.symm.trans ofAll)).2]

namespace Server

variable {σ : Type}

/-- What a fix is for the user: its kind, what it is called, and its edits. -/
def Session.Offer.identity (offer : Session.Offer) : FixKind × String × List Edit :=
  (offer.1.kind, offer.1.description, offer.1.edits)

/-! ## Keys -/

theorem offerKey_eq_of_identity {first second : Session.Offer}
    (same : first.identity = second.identity) :
    Session.offerKey first.1 = Session.offerKey second.1 := by
  simp only [Session.Offer.identity, Prod.mk.injEq] at same
  simp only [Session.offerKey, same]

theorem identity_eq_of_offerKey {first second : Session.Offer}
    (sameKey : Session.offerKey first.1 = Session.offerKey second.1)
    (sameEdits : first.1.edits = second.1.edits) : first.identity = second.identity := by
  simp only [Session.offerKey, Prod.mk.injEq] at sameKey
  simp only [Session.Offer.identity, sameKey, sameEdits]

theorem edits_eq_of_offerKey {session : Session σ} {file : String} {lines : LineTable}
    {diagnostics : List ShownDiagnostic} {first second : Session.Offer}
    (offered : first ∈ (session.offers file lines diagnostics).1)
    (offeredToo : second ∈ (session.offers file lines diagnostics).1)
    (sameKey : Session.offerKey first.1 = Session.offerKey second.1) :
    first.1.edits = second.1.edits := by
  obtain ⟨-, index, start, stop, fixes, known, -, assembled, listed⟩ := exists_assembled offered
  obtain ⟨-, otherIndex, otherStart, otherStop, others, knownToo, -, assembledToo, listedToo⟩ :=
    exists_assembled offeredToo
  obtain rfl := Option.some.inj (known.symm.trans knownToo)
  simp only [Session.offerKey, Prod.mk.injEq] at sameKey
  obtain ⟨sameKind, sameDescription, sameEdits⟩ := sameKey
  by_cases batch : first.1.kind = .fixAllOfRule ∨ first.1.kind = .fixAllAutoFixable
  · exact FixAction.edits_eq_of_batch assembled listed assembledToo listedToo batch sameKind
      sameDescription
  · rw [← sameKind] at sameEdits
    cases kind : first.1.kind <;> simp_all

/-! ## The first offer for each key -/

theorem distinctOffers_concat (seen : List (FixKind × String × List Edit))
    (offers : List Session.Offer) (offer : Session.Offer) :
    Session.distinctOffers seen (offers ++ [offer]) =
      if Session.offerKey offer.1 ∈ seen ∨
        ∃ earlier ∈ offers, Session.offerKey earlier.1 = Session.offerKey offer.1
      then Session.distinctOffers seen offers
      else Session.distinctOffers seen offers ++ [offer] := by
  induction offers generalizing seen with
  | nil => simp [Session.distinctOffers]
  | cons first rest ih =>
      simp only [List.cons_append, Session.distinctOffers, ih, List.mem_cons, exists_eq_or_imp]
      by_cases known : Session.offerKey first.1 ∈ seen
      · rw [if_pos known, if_pos known]
        refine if_congr ?_ rfl rfl
        constructor
        · exact Or.imp_right Or.inr
        · rintro (before | same | later)
          · exact .inl before
          · exact .inl (same ▸ known)
          · exact .inr later
      · rw [if_neg known, if_neg known, apply_ite (first :: ·), List.cons_append]
        refine if_congr ?_ rfl rfl
        rw [eq_comm, or_assoc, or_left_comm]

/-- The offers that are the first with their identity, in order. -/
structure FirstOffers (offered answered : List Session.Offer) : Prop where
  identities : answered.map (·.identity) = (offered.map (·.identity)).eraseDups
  first : ∀ offer ∈ answered, offered.find? (·.identity = offer.identity) = some offer

section

variable {offered answered : List Session.Offer} {offer : Session.Offer}

theorem FirstOffers.eq_nil_iff (firsts : FirstOffers offered answered) :
    answered = [] ↔ offered = [] := by
  have same : answered.map (·.identity) = [] ↔ (offered.map (·.identity)).eraseDups = [] := by
    rw [firsts.identities]
  rw [List.map_eq_nil_iff] at same
  rw [same]
  cases offered <;> simp [List.eraseDups_cons]

theorem FirstOffers.find?_concat (firsts : FirstOffers offered answered) (offer : Session.Offer) :
    ∀ old ∈ answered, (offered ++ [offer]).find? (·.identity = old.identity) = some old := by
  intro old member
  rw [List.find?_append, firsts.first old member, Option.some_or]

theorem FirstOffers.concat_known (firsts : FirstOffers offered answered)
    (known : offer.identity ∈ offered.map (·.identity)) :
    FirstOffers (offered ++ [offer]) answered where
  identities := by
    rw [List.map_append, List.map_singleton, eraseDups_concat, if_pos known, firsts.identities]
  first := firsts.find?_concat offer

theorem FirstOffers.concat_new (firsts : FirstOffers offered answered)
    (new : offer.identity ∉ offered.map (·.identity)) :
    FirstOffers (offered ++ [offer]) (answered ++ [offer]) where
  identities := by
    simp only [List.map_append, List.map_singleton, eraseDups_concat, if_neg new,
      firsts.identities]
  first := by
    rw [List.forall_mem_append, List.forall_mem_singleton]
    refine ⟨firsts.find?_concat offer, ?_⟩
    have unseen : offered.find? (·.identity = offer.identity) = none := by
      rw [List.find?_eq_none]
      intro earlier member same
      exact new (List.mem_map.mpr ⟨earlier, member, of_decide_eq_true same⟩)
    rw [List.find?_append, unseen, Option.none_or]
    simp

/-- Where the keys tell apart what is different, the first offers for them are answered. -/
theorem distinctOffers_firstOffers
    (told : ∀ first ∈ offered, ∀ second ∈ offered,
      Session.offerKey first.1 = Session.offerKey second.1 ↔ first.identity = second.identity) :
    FirstOffers offered (Session.distinctOffers [] offered) := by
  induction offered using List.reverseRecOn with
  | nil => exact ⟨rfl, List.forall_mem_nil _⟩
  | append_singleton offered offer ih =>
      have earlier := ih fun first member second memberToo =>
        told first (List.mem_append_left _ member) second (List.mem_append_left _ memberToo)
      have known_iff : (∃ first ∈ offered,
          Session.offerKey first.1 = Session.offerKey offer.1) ↔
            offer.identity ∈ offered.map (·.identity) := by
        rw [List.mem_map]
        refine exists_congr fun first => and_congr_right fun member => ?_
        exact told first (List.mem_append_left _ member) offer (by simp)
      rw [distinctOffers_concat]
      simp only [List.not_mem_nil, false_or, known_iff]
      split
      · next known => exact earlier.concat_known known
      · next new => exact earlier.concat_new new

end

/-! ## The answer -/

theorem offers_eq_flatMap (session : Session σ) (file : String) (lines : LineTable)
    (diagnostics : List ShownDiagnostic) :
    (session.offers file lines diagnostics).1 =
      (diagnostics.filter (·.source = some diagnosticSource)).flatMap fun diagnostic =>
        (diagnostic.offsets? lines).toList.flatMap fun (start, stop) =>
          (session.service.codeFixes session.host file start stop [diagnosticCode]).1.map
            (·, diagnostic) := by
  simp only [Session.offers, List.flatMap_map]
  induction diagnostics with
  | nil => rfl
  | cons diagnostic rest ih =>
      rw [List.flatMap_cons, ih, List.filter_cons]
      by_cases own : diagnostic.source = some diagnosticSource
      · simp only [own, ne_eq, not_true_eq_false, if_false, decide_true, if_true, List.flatMap_cons]
        cases diagnostic.offsets? lines <;> simp
      · simp [own]

/-- Of what the service offers for its own diagnostics whose offsets are known, each fix is answered
once, for the diagnostic that it is offered for first, and in this order. Two fixes are the same if
they have one kind, one description and the same edits. The edits of batches are not compared, but
no two batches of one request that are called the same have different edits. The answer is null
only if nothing is offered. -/
theorem codeActions_distinct (environment : Environment σ) (session : Session σ) (uri : Uri)
    (document : Document) (opened : session.documents.find? uri.fileName = some document)
    (diagnostics : List ShownDiagnostic) :
    let offered : List Session.Offer :=
      (diagnostics.filter (·.source = some diagnosticSource)).flatMap fun diagnostic =>
        (diagnostic.offsets? document.lines).toList.flatMap fun (start, stop) =>
          (session.service.codeFixes session.host uri.fileName start stop [diagnosticCode]).1.map
            (·, diagnostic)
    let actions := (session.codeActions uri diagnostics).1
    let answer := (session.handle environment (.codeAction uri diagnostics)).2
    (∀ first ∈ offered, ∀ second ∈ offered,
        Session.offerKey first.1 = Session.offerKey second.1 → first.1.edits = second.1.edits) ∧
      (∃ answered, FirstOffers offered answered ∧
        actions = answered.map fun offer =>
          CodeAction.ofFix uri document.lines offer.1 offer.2) ∧
      (offered ≠ [] → answer = .array (actions.map CodeAction.toValue)) ∧
      (answer = .null ↔ offered = []) := by
  intro offered actions answer
  have sameOffers : (session.offers uri.fileName document.lines diagnostics).1 = offered :=
    offers_eq_flatMap session uri.fileName document.lines diagnostics
  have sound : ∀ first ∈ offered, ∀ second ∈ offered,
      Session.offerKey first.1 = Session.offerKey second.1 → first.1.edits = second.1.edits := by
    rw [← sameOffers]
    exact fun first member second memberToo => edits_eq_of_offerKey member memberToo
  have firsts : FirstOffers offered (Session.distinctOffers [] offered) :=
    distinctOffers_firstOffers fun first member second memberToo =>
      ⟨fun sameKey => identity_eq_of_offerKey sameKey (sound first member second memberToo sameKey),
        offerKey_eq_of_identity⟩
  have actionsEq : actions = (Session.distinctOffers [] offered).map
      fun offer => CodeAction.ofFix uri document.lines offer.1 offer.2 := by
    simp only [actions, codeActions_eq opened, Session.answered, sameOffers]
  have answerEq : answer =
      if actions.isEmpty then .null else .array (actions.map CodeAction.toValue) := rfl
  have empty_iff : actions.isEmpty ↔ offered = [] := by
    rw [actionsEq, List.isEmpty_iff, List.map_eq_nil_iff, firsts.eq_nil_iff]
  refine ⟨sound, ⟨_, firsts, actionsEq⟩, ?_, ?_⟩
  · intro nonempty
    rw [answerEq, if_neg (mt empty_iff.mp nonempty)]
  · rw [answerEq, ← empty_iff]
    cases actions.isEmpty <;> simp

def semicolonDialogue : Dialogue (List (Except LintError Report)) :=
  (Dialogue.fresh semicolonEnvironment [.ok semicolonReport]).run semicolonTurns

/-- The editor sends a diagnostic twice. -/
theorem codeActions_distinct_repeated :
    let session := semicolonDialogue.session
    let lines := LineTable.ofText "var a = 1\n"
    let shown := semicolonDialogue.client.shown semicolonUri
    let offered := (session.offers semicolonUri.fileName lines (shown ++ shown)).1
    let actions := (session.codeActions semicolonUri (shown ++ shown)).1
    let request := Message.codeAction semicolonUri (shown ++ shown)
    offered.length = 6 ∧
      actions.map (·.title) =
        ["Fix: Missing semicolon.", "Fix all auto-fixable eslint failures",
          "Disable rule 'semi'"] ∧
      (∃ answered, FirstOffers offered answered ∧
        actions = answered.map fun offer =>
          CodeAction.ofFix semicolonUri lines offer.1 offer.2) ∧
      (session.handle semicolonEnvironment request).2 =
        .array (actions.map CodeAction.toValue) := by
  have opened : semicolonDialogue.session.documents.find? semicolonUri.fileName =
      some ⟨semicolonUri, 1, .ofText "var a = 1\n"⟩ := by cbv
  have six : (semicolonDialogue.session.offers semicolonUri.fileName (.ofText "var a = 1\n")
      (semicolonDialogue.client.shown semicolonUri
        ++ semicolonDialogue.client.shown semicolonUri)).1.length = 6 := by cbv
  refine ⟨six, by cbv, ?_⟩
  obtain ⟨-, answered, nonempty, -⟩ := codeActions_distinct semicolonEnvironment _ semicolonUri _
    opened (semicolonDialogue.client.shown semicolonUri
      ++ semicolonDialogue.client.shown semicolonUri)
  rw [← offers_eq_flatMap] at answered nonempty
  exact ⟨answered, nonempty (List.ne_nil_of_length_eq_add_one six)⟩

end Server

end EditorLint
