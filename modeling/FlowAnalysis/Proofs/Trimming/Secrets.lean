import FlowAnalysis.Proofs.Secrets
import FlowAnalysis.Proofs.Trimming.Rules

/-!
# Secrets of trimmed flows

What stands among the credentials of a bubble stands there in the trimmed source, with or without
its wrappers, so tokens are looked for in the same texts.

## Main definitions

* `Flow.Sorts` — texts are told from credentials alike in two flows.

## Main results

* `Flow.Matches.sorts_of_rooted` — in sources that are laid out.
* `Flow.Matches.findings_checkSecrets` — **the tokens of a trimmed flow are those of the flow.**
-/

namespace FlowAnalysis

open Syntax Trimming

variable {P : Trimming} {s' s : Source} {f' f : Flow} {config : Config} {registry : Registry}
  {u t v c : Tree}

/-- Whether texts are told from credentials in a trimmed flow as in the flow. -/
structure Flow.Sorts (P : Trimming) (f' f : Flow) : Prop where
  begins : ∀ u t, P.Matches f'.source f.source u t →
    Flow.beginsIn f'.credentialSpans u = Flow.beginsIn f.credentialSpans t
  inside : ∀ p ∈ f.source.root.nodes, ∀ c ∈ p.children, ∀ e, P.Opened p c e →
    Flow.beginsIn f.credentialSpans c → Flow.beginsIn f.credentialSpans e

namespace Flow.Matches

/-! ### Credentials -/

/-- The values that stand as credentials in a trimmed flow. -/
theorem forall₂_credentialSpans
    (h : Flow.Matches P (Flow.of s' registry config) (Flow.of s registry config)) :
    List.Forall₂ (fun span' span => ∃ p v c, P.Part s' s p v c ∧ span' = v.span ∧ span = c.span ∧
        s'.IsValue v ∧ s.IsValue c)
      (Flow.of s' registry config).credentialSpans (Flow.of s registry config).credentialSpans := by
  refine List.rel_filterMap (fun c' c hc => ?_) h.constructions.mem
  obtain ⟨hc', hc, hmatches⟩ := hc
  have hcredentials := rel_credentialsOf? hmatches
  generalize hx' : (Flow.of s' registry config).credentialsOf? c' = x',
    hx : (Flow.of s registry config).credentialsOf? c = x at hcredentials
  cases hcredentials with
  | none => exact .none
  | @some x' x hpart =>
    obtain ⟨-, p, hpart⟩ := hpart
    exact .some ⟨p, x'.2, x.2, hpart, rfl, rfl, isValue_of_credentialsOf? hc' hx',
      isValue_of_credentialsOf? hc hx⟩

/-- **In sources that are laid out texts are told from credentials alike.** -/
theorem sorts_of_rooted (hroot' : Rooted s'.text s'.root) (hroot : Rooted s.text s.root)
    (h : Flow.Matches P (Flow.of s' registry config) (Flow.of s registry config)) :
    Flow.Sorts P (Flow.of s' registry config) (Flow.of s registry config) where
  begins u t ht := by
    -- A text begins in a value if it is a node of the value, and nodes go along in lockstep.
    refine h.forall₂_credentialSpans.any_eq ?_
    rintro _ _ ⟨p, v, c, ⟨q, hq, hzip⟩, rfl, rfl, hvalue', hvalue⟩
    rw [← Bool.decide_and, ← Bool.decide_and, decide_eq_decide]
    exact (Source.begins_iff hroot' hvalue' ht.mem_nodes').trans
      ((P.lockstep.mem_nodes_iff_of_mem_zip hroot'.laid hroot.laid ht.mem hq.mem hzip).trans
        (Source.begins_iff hroot hvalue ht.mem_nodes).symm)
  inside p hp c hc e he hbegins := by
    have hmem : c ∈ s.root.nodes := Tree.mem_nodes_trans hp (Tree.mem_nodes_of_child hc)
    obtain ⟨d, hd, value, node, hvalue, hin⟩ := (beginsIn_iff hroot registry config hmem).1 hbegins
    refine (beginsIn_iff hroot registry config ?_).2
      ⟨d, hd, value, node, hvalue, Tree.mem_nodes_trans hin (Tree.mem_nodes_of_child ?_)⟩
    · exact Tree.mem_nodes_trans hmem (Tree.mem_nodes_of_child he.mem_children)
    · exact he.mem_children

/-! ### Texts -/

theorem isSuspect_eq (h : P.Matches s' s u t) : isSuspect s' u = isSuspect s t := by
  rw [isSuspect, isSuspect, isText, isText, h.isAny_eq, h.isComposed_eq]
  cases htext : t.isAny [.string, .templateString] with
  | false => rfl
  | true =>
    cases hcomposed : t.isComposed with
    | true => rfl
    | false => rw [h.chars (isSpelled_of_isText htext hcomposed)]

theorem forall₂_suspects (hP : P.Harmless config f' f) (h : Flow.Matches P f' f)
    (hsorts : Flow.Sorts P f' f) :
    List.Forall₂ (P.Matches f'.source f.source) (f'.openTexts.filter (isSuspect f'.source))
      (f.openTexts.filter (isSuspect f.source)) := by
  have hfilter : ∀ f : Flow, f.openTexts.filter (isSuspect f.source) = (f.source.root.walk fun t =>
      if beginsIn f.credentialSpans t then .skip else if isText t then .keep else .enter).filter
        (isSuspect f.source) := by
    intro f
    rw [openTexts, List.filter_filter]
    refine List.filter_congr fun t _ => ?_
    rw [isSuspect]
    cases isText t <;> simp
  have hquiet : ∀ (s : Source) (t : Tree), t.isAny loudKinds = false → isSuspect s t = false := by
    intro s t ht
    rw [isSuspect, isText, Tree.isAny_eq_false_of_subset (by decide) ht, Bool.false_and]
  rw [hfilter, hfilter]
  refine h.trims.root.forall₂_walk (blind_plain (hP.deaf fun n hn => isSuspect_of_isMute hn)
    (hquiet _) (hquiet _) (fun u t ht => isSuspect_eq ht) (fun u t ht => ?_)
    fun p hp c hc e he => ?_)
  · rw [hsorts.begins u t ht, isText, isText, ht.isAny_eq]
  · -- A wrapper is entered, unless it belongs to the credentials; so does then what is in it.
    have htext : isText c = false := Tree.isAny_eq_false_of_subset (by decide) he.isAny_loudKinds
    rw [htext]
    cases hbegins : beginsIn f.credentialSpans c with
    | false => exact .inl rfl
    | true => exact .inr ⟨rfl, by rw [hsorts.inside p hp c hc e he hbegins]; rfl⟩

/-- The rule reports the suspects with a token. -/
theorem findings_suspects (f : Flow) : f.checkSecrets.map (·.finding) =
    (f.openTexts.filter (isSuspect f.source)).filterMap fun t =>
      (secretProvider? (f.source.chars t)).map Finding.hardcodedSecret := by
  rw [checkSecrets, List.map_filterMap, List.filterMap_filter]
  refine List.filterMap_congr fun t ht => ?_
  have htext : isText t := (List.mem_filter.1 ht).2
  rw [isSuspect, htext, Option.map_map]
  cases hprovider : secretProvider? (f.source.chars t) with
  | none => cases t.isComposed <;> rfl
  | some provider => cases t.isComposed <;> rfl

/-- **The tokens of a trimmed flow are those of the flow.** -/
theorem findings_checkSecrets (h : Flow.Matches P f' f) (hP : P.Harmless config f' f)
    (hsorts : Flow.Sorts P f' f) :
    f'.checkSecrets.map (·.finding) = f.checkSecrets.map (·.finding) := by
  rw [findings_suspects, findings_suspects]
  refine ((forall₂_suspects hP h hsorts).imp_of_mem fun u t ht hmatch =>
    And.intro hmatch (List.mem_filter.1 ht).1).filterMap_eq fun u t ht => ?_
  obtain ⟨hmatch, hopen⟩ := ht
  refine congrArg (Option.map Finding.hardcodedSecret) ?_
  cases hcomposed : t.isComposed with
  | true => exact hP.templates _ hmatch.mem hcomposed hopen
  | false => rw [hmatch.chars (isSpelled_of_isText (List.mem_filter.1 hopen).2 hcomposed)]

end Flow.Matches

end FlowAnalysis
