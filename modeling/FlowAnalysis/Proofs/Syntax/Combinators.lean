import FlowAnalysis.Proofs.Syntax.Readers

/-!
# The combinators of readers lay out

Readers are composed of combinators, and so is the proof that they lay out what they read: there
is one instance for each combinator, and instance search goes through a reader as it is written.

## Main definitions

* `Reader.Lays` — a reader that leads from every state to the states that it answers.
* `Holds`, `Mark`, `Forward` — the side conditions on kinds, punctuation marks and lexemes.
-/

namespace FlowAnalysis.Syntax

open Lexeme

/-! ### Side conditions -/

/-- A condition that holds by evaluation. -/
class Holds (b : Bool) : Prop where
  holds : b = true

instance : Holds true := ⟨rfl⟩

/-- A punctuation mark has at least one character. -/
class Mark (mark : String) : Prop where
  pos : 0 < mark.length

instance (c : Char) : Mark (String.singleton c) := ⟨by simp⟩

instance : Mark "(" := ⟨by decide⟩
instance : Mark ")" := ⟨by decide⟩
instance : Mark "[" := ⟨by decide⟩
instance : Mark "]" := ⟨by decide⟩
instance : Mark "\x7b" := ⟨by decide⟩
instance : Mark "\x7d" := ⟨by decide⟩
instance : Mark "\x7b|" := ⟨by decide⟩
instance : Mark "|\x7d" := ⟨by decide⟩
instance : Mark "$\x7b" := ⟨by decide⟩
instance : Mark "\x60" := ⟨by decide⟩
instance : Mark "<" := ⟨by decide⟩
instance : Mark ">" := ⟨by decide⟩
instance : Mark "," := ⟨by decide⟩
instance : Mark ";" := ⟨by decide⟩
instance : Mark ":" := ⟨by decide⟩
instance : Mark "?" := ⟨by decide⟩
instance : Mark "?:" := ⟨by decide⟩
instance : Mark "-?:" := ⟨by decide⟩
instance : Mark "+?:" := ⟨by decide⟩
instance : Mark "!" := ⟨by decide⟩
instance : Mark "~" := ⟨by decide⟩
instance : Mark "=" := ⟨by decide⟩
instance : Mark "=>" := ⟨by decide⟩
instance : Mark "." := ⟨by decide⟩
instance : Mark "?." := ⟨by decide⟩
instance : Mark "..." := ⟨by decide⟩
instance : Mark "@" := ⟨by decide⟩
instance : Mark "/" := ⟨by decide⟩
instance : Mark "*" := ⟨by decide⟩
instance : Mark "-" := ⟨by decide⟩
instance : Mark "+" := ⟨by decide⟩
instance : Mark "--" := ⟨by decide⟩
instance : Mark "++" := ⟨by decide⟩
instance : Mark "|" := ⟨by decide⟩
instance : Mark "&" := ⟨by decide⟩

/-- A function that finds the end of a lexeme goes forward. -/
class Forward (stop? : Chars → Nat → Option Nat) : Prop where
  lt : ∀ {text i j}, stop? text i = some j → i < j

instance : Forward wordEnd? := ⟨lt_wordEnd?⟩
instance : Forward numberEnd? := ⟨lt_numberEnd?⟩
instance : Forward regexEnd? := ⟨lt_regexEnd?⟩

/-! ### Readers -/

/-- A reader leads from every state to the states that it answers. -/
class Reader.Lays {α : Type} (r : Reader α) (reach : Reach) (straight : Bool) : Prop where
  leads : ∀ {s a t}, r s = .done a t → s.Leads reach straight t

namespace Reader

variable {α β : Type} {reach : Reach} {straight : Bool}

instance (priority := 10) lays_keeps {r : Reader α} [h : r.Lays .adds straight] :
    r.Lays .keeps straight :=
  ⟨fun ht => (h.leads ht).keeps⟩

instance (priority := 10) lays_grows {r : Reader α} [h : r.Lays .keeps straight] :
    r.Lays .grows straight :=
  ⟨fun ht => (h.leads ht).grows⟩

/-! ### Sequences, choices and repetitions -/

theorem andThen_eq_done {r : Reader α} {f : α → Reader β} {s u : State} {b : β}
    (h : (r >>= f) s = .done b u) : ∃ a t, r s = .done a t ∧ f a t = .done b u := by
  change andThen r f s = .done b u at h
  unfold andThen at h
  split at h
  · next a t ht => exact ⟨a, t, ht, h⟩
  · simp at h

theorem lays_bind {k₁ k₂ : Reach} {r : Reader α} {f : α → Reader β} (hr : r.Lays k₁ straight)
    (hf : ∀ a, (f a).Lays k₂ straight) (hk₁ : k₁ = .grows → reach = .grows)
    (hk₂ : k₂ = .grows → k₁ = .adds ∨ reach = .grows)
    (hk : reach = .adds → k₁ = .adds ∨ k₂ = .adds) : (r >>= f).Lays reach straight := by
  constructor
  intro s b u h
  obtain ⟨a, t, ht, hu⟩ := andThen_eq_done h
  exact (hr.leads ht).trans ((hf a).leads hu) hk₁ hk₂ hk

instance lays_bind_later {r : Reader α} {f : α → Reader β} [hr : r.Lays .keeps straight]
    [hf : ∀ a, (f a).Lays .adds straight] : (r >>= f).Lays .adds straight :=
  lays_bind hr hf nofun nofun (fun _ => .inr rfl)

instance lays_bind_adds {r : Reader α} {f : α → Reader β} [hr : r.Lays .adds straight]
    [hf : ∀ a, (f a).Lays .grows straight] : (r >>= f).Lays .adds straight :=
  lays_bind hr hf nofun (fun _ => .inl rfl) (fun _ => .inl rfl)

instance lays_bind_keeps {r : Reader α} {f : α → Reader β} [hr : r.Lays .keeps straight]
    [hf : ∀ a, (f a).Lays .keeps straight] : (r >>= f).Lays .keeps straight :=
  lays_bind hr hf nofun nofun nofun

instance lays_bind_grows {r : Reader α} {f : α → Reader β} [hr : r.Lays .grows straight]
    [hf : ∀ a, (f a).Lays .grows straight] : (r >>= f).Lays .grows straight :=
  lays_bind hr hf (fun _ => rfl) (fun _ => .inr rfl) nofun

instance lays_give {a : α} : (give a).Lays .keeps straight := by
  constructor
  rintro s b t ⟨⟩
  exact .refl s

instance lays_pure {a : α} : (pure a : Reader α).Lays .keeps straight := lays_give

instance lays_current : current.Lays .keeps straight := by
  constructor
  rintro s b t ⟨⟩
  exact .refl s

instance lays_refuse : (refuse : Reader α).Lays reach straight := by
  constructor
  intro s b t h
  simp [refuse] at h

instance lays_require {p : State → Bool} : (require p).Lays .keeps straight := by
  constructor
  intro s a t h
  unfold require at h
  split at h
  · obtain ⟨rfl, rfl⟩ := Reply.done.inj h
    exact .refl s
  · simp [refuse] at h

instance lays_ahead {r : Reader α} : (ahead r).Lays .keeps straight := by
  constructor
  intro s a t h
  unfold ahead at h
  split at h
  all_goals
    obtain ⟨-, rfl⟩ := Reply.done.inj h
    exact .refl s

theorem lays_or {r q : Reader α} (hr : r.Lays reach straight) (hq : q.Lays reach straight) :
    (orElse r q).Lays reach straight := by
  constructor
  intro s a t h
  unfold orElse at h
  split at h
  · next b u hu =>
    obtain ⟨rfl, rfl⟩ := Reply.done.inj h
    exact hr.leads hu
  · exact State.leads_congr (hq.leads h) ⟨rfl, rfl, rfl⟩ ⟨rfl, rfl, rfl⟩

instance lays_orElse {r q : Reader α} [hr : r.Lays reach straight] [hq : q.Lays reach straight] :
    (r <|> q).Lays reach straight :=
  lays_or hr hq

instance lays_maybe {r : Reader Unit} [hr : r.Lays .keeps straight] :
    (maybe r).Lays .keeps straight :=
  lays_or hr lays_give

instance lays_maybe_grows {r : Reader Unit} [hr : r.Lays .grows straight] :
    (maybe r).Lays .grows straight :=
  lays_or hr lays_grows

instance lays_onlyIf {p : State → Bool} {r : Reader Unit} [hr : r.Lays .keeps straight] :
    (onlyIf p r).Lays .keeps straight := by
  constructor
  intro s a t h
  unfold onlyIf at h
  split at h
  · exact hr.leads h
  · obtain ⟨rfl, rfl⟩ := Reply.done.inj h
    exact .refl s

instance lays_ite {c : Prop} [Decidable c] {r q : Reader α} [hr : r.Lays reach straight]
    [hq : q.Lays reach straight] : (if c then r else q).Lays reach straight := by
  split
  · exact hr
  · exact hq

/-- A reader may look at the state from which it starts. -/
theorem lays_at {f : State → Reader α} (h : ∀ s, (f s).Lays reach straight) :
    Lays (fun s => f s s) reach straight :=
  ⟨fun {s _ _} ht => (h s).leads ht⟩

theorem lays_manyUpTo {r : Reader Unit} (hr : r.Lays reach straight) (hreach : reach ≠ .adds) :
    ∀ n, (manyUpTo r n).Lays reach straight := by
  have hrefl : ∀ s : State, s.Leads reach straight s := by
    intro s
    cases reach with
    | adds => exact absurd rfl hreach
    | keeps => exact .refl s
    | grows => exact (State.Leads.refl s).grows
  intro n
  induction n with
  | zero =>
    constructor
    rintro s a t ⟨⟩
    exact hrefl s
  | succ n ih =>
    constructor
    intro s a t h
    simp only [manyUpTo] at h
    split at h
    · obtain ⟨-, rfl⟩ := Reply.done.inj h
      exact State.leads_congr (hrefl s) ⟨rfl, rfl, rfl⟩ ⟨rfl, rfl, rfl⟩
    · next u hu =>
      split at h
      · obtain ⟨-, rfl⟩ := Reply.done.inj h
        exact hr.leads hu
      · exact (hr.leads hu).trans (ih.leads h) id .inr (fun h => absurd h hreach)

instance lays_many {r : Reader Unit} [hr : r.Lays .keeps straight] :
    (many r).Lays .keeps straight :=
  ⟨fun ht => (lays_manyUpTo hr nofun _).leads ht⟩

instance lays_many_grows {r : Reader Unit} [hr : r.Lays .grows straight] :
    (many r).Lays .grows straight :=
  ⟨fun ht => (lays_manyUpTo hr nofun _).leads ht⟩

instance lays_within {endable operable : Bool} {r : Reader α} [hr : r.Lays reach straight] :
    (within endable operable r).Lays reach straight := by
  constructor
  intro s a t h
  unfold within at h
  split at h
  · next b u hu =>
    obtain ⟨rfl, rfl⟩ := Reply.done.inj h
    exact State.leads_congr (hr.leads hu) ⟨rfl, rfl, rfl⟩ ⟨rfl, rfl, rfl⟩
  · simp at h

instance lays_bracketed {r : Reader α} [hr : r.Lays reach straight] :
    (bracketed r).Lays reach straight := lays_within

instance lays_operand {r : Reader α} [hr : r.Lays reach straight] :
    (operand r).Lays reach straight :=
  lays_at (f := fun s => within s.endable true r) fun _ => lays_within

instance lays_typed {r : Reader α} [hr : r.Lays reach straight] :
    (typed r).Lays reach straight :=
  lays_at (f := fun s => within s.endable false r) fun _ => lays_within

instance lays_inRole {role : Role} {r : Reader Unit} [hr : r.Lays .adds straight] :
    (inRole role r).Lays .adds straight := by
  constructor
  intro s a t h
  unfold inRole at h
  split at h
  · next b u hu =>
    obtain ⟨rfl, rfl⟩ := Reply.done.inj h
    have hl := hr.leads hu
    refine ⟨hl.text, hl.le, fun hc => hl.clean (clean_mark.1 hc), ?_⟩
    intro ys base hs _ hys
    obtain ⟨zs, hzs, hsolid, hst, hlaid⟩ := hl.grown hs nofun hys
    have hz : Solid zs := hsolid (.inl rfl)
    refine ⟨mark role zs, ?_, fun _ => solid_mark.2 hz, ?_, ?_⟩
    · rw [← hz.mark, ← hzs]
    · rw [all_straight_mark]
      exact hst
    · intro hc lo hlo
      exact laidFrom_mark.2 (hlaid (clean_mark.1 hc) hlo)
  · simp at h

/-- A reader may look at the state before it reads. -/
theorem lays_look {f : State → Reader α} (h : ∀ s, (f s).Lays reach straight) :
    (current >>= f).Lays reach straight := by
  constructor
  intro s a t ht
  obtain ⟨_, _, hs, ht⟩ := andThen_eq_done ht
  obtain ⟨rfl, rfl⟩ := Reply.done.inj hs
  exact (h s).leads ht

/-! ### Tokens -/

instance lays_suppliable {what name : String} {fresh : Bool} {r : Reader Unit}
    [hr : r.Lays .adds straight] : (suppliable what name fresh r).Lays .adds straight := by
  constructor
  intro s a t h
  unfold suppliable at h
  split at h
  · obtain ⟨-, rfl⟩ := Reply.done.inj h
    exact (State.leads_flush s).trans (State.leads_missing rfl rfl rfl) nofun nofun
      (fun _ => .inr rfl)
  · exact hr.leads h

instance lays_tokenWith {fresh : Bool} {mark : String} [hm : Mark mark] :
    (tokenWith fresh mark).Lays .adds straight := by
  constructor
  intro s a t h
  simp only [tokenWith] at h
  split at h
  · exact State.leads_push (by rfl) (Nat.lt_add_of_pos_right hm.pos) h
  · simp [refuse] at h

instance lays_token {mark : String} [Mark mark] : (token mark).Lays .adds straight :=
  lays_tokenWith

instance lays_ending {mark : String} [Mark mark] : (ending mark).Lays .adds straight :=
  lays_suppliable

instance lays_closing {mark : String} [Mark mark] : (closing mark).Lays .adds straight :=
  lays_suppliable

instance lays_word {w : String} : (word w).Lays .adds straight := by
  constructor
  intro s a t h
  simp only [word] at h
  split at h
  · next j hj =>
    split at h
    · exact State.leads_push (by rfl) (lt_wordEnd? hj) h
    · simp [refuse] at h
  · simp [refuse] at h

instance lays_anyWord {ws : List String} : (anyWord ws).Lays .adds straight := by
  constructor
  intro s a t h
  unfold anyWord at h
  split at h
  · split at h
    · exact lays_word.leads h
    · simp [refuse] at h
  · simp [refuse] at h

instance lays_wordAs {kind : Kind} {w : String} [hk : Holds kind.bare] :
    (wordAs kind w).Lays .adds straight := by
  constructor
  intro s a t h
  simp only [wordAs] at h
  split at h
  · next j hj =>
    split at h
    · exact State.leads_push (l := .rule kind) hk.holds (lt_wordEnd? hj) h
    · simp [refuse] at h
  · simp [refuse] at h

instance lays_leaf {kind : Kind} {stop? : Chars → Nat → Option Nat} [hk : Holds kind.bare]
    [hf : Forward stop?] : (leaf kind stop?).Lays .adds straight := by
  constructor
  intro s a t h
  simp only [leaf] at h
  split at h
  · next j hj => exact State.leads_push (l := .rule kind) hk.holds (hf.lt hj) h
  · simp [refuse] at h

instance lays_leafHere {kind : Kind} {stop? : Chars → Nat → Option Nat} [hk : Holds kind.bare]
    [hf : Forward stop?] : (leafHere (.rule kind) stop?).Lays .adds straight := by
  constructor
  intro s a t h
  unfold leafHere at h
  split at h
  · next j hj =>
    obtain ⟨-, rfl⟩ := Reply.done.inj h
    exact State.leads_leaf (l := .rule kind) hk.holds (Nat.le_refl _) (hf.lt hj) rfl rfl rfl
  · simp at h

instance lays_heading {kind : Kind} [Holds kind.bare] : (heading kind).Lays .adds straight :=
  lays_leaf

instance lays_name {kind : Kind} [Holds kind.bare] : (name kind).Lays .adds straight :=
  lays_suppliable

theorem State.leads_semicolonUpTo {operable bodyOk : Bool} : ∀ {n : Nat} {s t : State},
    s.semicolonUpTo operable bodyOk n = some t → s.Leads .keeps straight t := by
  intro n
  induction n with
  | zero => intro s t h; simp [State.semicolonUpTo] at h
  | succ n ih =>
    intro s t h
    rw [State.semicolonUpTo] at h
    split at h
    · simp at h
    · split at h
      · obtain rfl : s = t := by simpa using h
        exact .refl s
      · split at h
        · next u hu =>
          split at h
          · next hlt => exact (State.leads_afterExtra hu hlt).trans (ih h) nofun nofun nofun
          · simp at h
        · simp at h

instance lays_silentSemicolon {bodyOk operable : Bool} :
    (silentSemicolon bodyOk operable).Lays .keeps straight := by
  constructor
  intro s a t h
  unfold silentSemicolon at h
  split at h
  · next u hu =>
    obtain ⟨-, rfl⟩ := Reply.done.inj h
    exact State.leads_congr (State.leads_semicolonUpTo hu) ⟨rfl, rfl, rfl⟩ ⟨rfl, rfl, rfl⟩
  · simp [refuse] at h

instance lays_semicolonOr {bodyOk operable : Bool} :
    (semicolonOr bodyOk operable).Lays .keeps straight :=
  lays_or lays_silentSemicolon lays_keeps

instance lays_semicolon {operable : Bool} : (semicolon operable).Lays .keeps straight :=
  lays_semicolonOr

/-! ### Nodes -/

theorem nodeBy_eq_done {kind : List Tree → Kind} {r : Reader Unit} {s w : State} {a : Unit}
    (h : nodeBy kind r s = .done a w) :
    ∃ b u, r { s.flush with out := [], around := s.flush.out :: s.flush.around } = .done b u ∧
      w = { u with out := assemble (kind u.out) u.out u.pos :: s.flush.out,
                   around := s.flush.around } := by
  simp only [nodeBy] at h
  split at h
  · next b u hu => exact ⟨b, u, hu, (Reply.done.inj h).2.symm⟩
  · simp at h

/-- A node is laid out if its parts are and it is made up as its kind says. -/
theorem lays_nodeBy {straight' : Bool} {kind : List Tree → Kind} {r : Reader Unit}
    (hr : r.Lays .adds straight') (hk : ∀ ts, (kind ts).bare)
    (hf : ∀ ts us : List Tree, (straight' → us.all Tree.straight) → Formed (.rule (kind ts)) us)
    (hst : straight → straight') : (nodeBy kind r).Lays .adds straight := by
  constructor
  intro s a w h
  obtain ⟨b, u, hu, rfl⟩ := nodeBy_eq_done h
  have hl := hr.leads hu
  obtain ⟨zs, hzs, hsolid, hzst, _⟩ := hl.added nofun
  have hust : straight' → u.out.all Tree.straight := by simpa [hzs] using hzst
  have hne : u.out ≠ [] := by
    obtain ⟨t, ht, _⟩ := hsolid rfl
    rintro h
    simp [hzs] at h
    simp [h] at ht
  obtain ⟨howner, hcomment, hhtml⟩ := (Kind.bare_iff _).1 (hk u.out)
  refine (State.leads_flush s).trans (State.leads_node hl.keeps ⟨rfl, rfl, rfl⟩ ⟨rfl, rfl, rfl⟩ hne
    ⟨hcomment, hhtml⟩ (fun _ _ => hf _ _ ?_) ?_) nofun nofun (fun _ => .inr rfl)
  · intro h
    rw [List.all_reverse]
    exact hust h
  · exact fun h => State.straight_assemble howner (hust (hst h))

instance lays_node {kind : Kind} {r : Reader Unit} [hk : Holds kind.ordinary]
    [hr : r.Lays .adds straight] : (node kind r).Lays .adds straight :=
  lays_nodeBy hr (fun _ => Kind.bare_of_manner (.inl hk.holds))
    (fun _ us _ => formed_ordinary hk.holds us) id

instance lays_node_ite {p : List Tree → Bool} {k₁ k₂ : Kind} {r : Reader Unit}
    [hk₁ : Holds k₁.ordinary] [hk₂ : Holds k₂.ordinary] [hr : r.Lays .adds straight] :
    (nodeBy (fun out => if p out then k₁ else k₂) r).Lays .adds straight := by
  have h : ∀ ts, (if p ts then k₁ else k₂).ordinary := by
    intro ts
    split
    · exact hk₁.holds
    · exact hk₂.holds
  exact lays_nodeBy hr (fun ts => Kind.bare_of_manner (.inl (h ts)))
    (fun ts us _ => formed_ordinary (h ts) us) id

instance lays_node_textual {kind : Kind} {r : Reader Unit} [hk : Holds kind.textual]
    [hr : r.Lays .adds true] : (node kind r).Lays .adds straight :=
  lays_nodeBy hr (fun _ => Kind.bare_of_manner (.inr (.inl hk.holds)))
    (fun _ _ h => (formed_textual hk.holds).2 (h rfl)) (fun _ => rfl)

/-- The keyword with which a node begins is its first child. -/
theorem out_word_eq {w : String} {s t : State} {a : Unit}
    (h : word w { s.flush with out := [], around := s.flush.out :: s.flush.around } = .done a t)
    (hs : Clean s.flush.out) (ht : Clean t.out) : ∃ i j, t.out = [State.leafOf (.token w) i j] := by
  set v : State := { s.flush with out := [], around := s.flush.out :: s.flush.around }
  have hv : v.Quiet := fun t ht hlt => State.quiet_flush hs t ht hlt
  simp only [word] at h
  split at h
  · split at h
    · simp only [push] at h
      obtain ⟨-, rfl⟩ := Reply.done.inj h
      rw [clean_cons] at ht
      rw [hv.flush ht.2]
      exact ⟨_, _, rfl⟩
    · simp [refuse] at h
  · simp [refuse] at h

/-- A node that begins with a keyword is laid out if what follows is. -/
theorem lays_node_word {kind : Kind} {w : String} {f : Unit → Reader Unit}
    (hf : ∀ a, (f a).Lays .keeps false) (hkind : kind ≠ .comment ∧ kind ≠ .htmlComment)
    (hformed : ∀ (t : Tree) (ts : List Tree), t.isTerminal → t.role = none →
      Formed (.rule kind) (t :: ts)) : (node kind (word w >>= f)).Lays .adds false := by
  constructor
  intro s a w' h
  obtain ⟨b, u, hu, rfl⟩ := nodeBy_eq_done h
  obtain ⟨c, v, hv, hvu⟩ := andThen_eq_done hu
  obtain ⟨zs, hzs, _⟩ := ((hf c).leads hvu).added nofun
  have hword : State.Leads .adds false _ v := lays_word.leads hv
  have hl : State.Leads .keeps false _ u :=
    hword.keeps.trans ((hf c).leads hvu) nofun nofun nofun
  have hne : u.out ≠ [] := by
    obtain ⟨ws, hws, hsolid, _⟩ := hword.added nofun
    obtain ⟨t, ht, _⟩ := hsolid rfl
    rw [hzs, hws]
    exact List.ne_nil_of_mem (List.mem_append_right zs (List.mem_append_left _ ht))
  refine (State.leads_flush s).trans (State.leads_node hl ⟨rfl, rfl, rfl⟩ ⟨rfl, rfl, rfl⟩ hne hkind
    ?_ nofun) nofun nofun (fun _ => .inr rfl)
  intro hc hs
  rw [hzs, clean_append] at hc
  obtain ⟨i, j, hij⟩ := out_word_eq hv hs hc.2
  rw [hzs, hij, List.reverse_append]
  exact hformed _ _ rfl rfl

instance lays_node_owner {kind : Kind} {w : String} {f : Unit → Reader Unit}
    [hk : Holds kind.owner] [hf : ∀ a, (f a).Lays .keeps false] :
    (node kind (word w >>= f)).Lays .adds false := by
  refine lays_node_word hf ?_ fun t ts ht hrole => (formed_owner hk.holds).2 ⟨t, ts, rfl, ht, hrole⟩
  have := hk.holds
  constructor <;> rintro rfl <;> simp at this

instance lays_node_headed {kind : Kind} {w : String} {f : Unit → Reader Unit}
    [hk : Holds kind.headed] [hf : ∀ a, (f a).Lays .keeps false] :
    (node kind (word w >>= f)).Lays .adds false := by
  refine lays_node_word hf ?_ fun t ts ht _ => (formed_headed hk.holds).2 ?_
  · have := hk.holds
    constructor <;> rintro rfl <;> simp at this
  · rintro x ⟨⟩
    exact ht

/-! ### Nodes that hold values -/

/-- A reader that adds no value of a property. -/
class Valueless (r : Reader Unit) : Prop where
  isValue : ∀ {s a t}, r s = .done a t → (∀ z ∈ s.out, z.isValue = false) →
    ∀ z ∈ t.out, z.isValue = false

theorem isValue_flushUpTo {n : Nat} {s : State} (h : ∀ z ∈ s.out, z.isValue = false) :
    ∀ z ∈ (State.flushUpTo n s).out, z.isValue = false := by
  induction n generalizing s with
  | zero => exact h
  | succ n ih =>
    rw [State.flushUpTo]
    split
    · next t ht =>
      split
      · refine ih (List.forall_mem_cons.2 ⟨?_, h⟩)
        obtain ⟨l, j, rfl, rfl | ⟨rfl | rfl, _⟩⟩ := State.extra?_cases ht <;> rfl
      · exact h
    · exact h

theorem isValue_leafOf {k : Kind} (h : k.valueless) {i j : Nat} :
    (State.leafOf (.rule k) i j).isValue = false := by
  revert h
  cases k <;> simp [State.leafOf, Tree.isValue, Tree.is]

theorem isValue_assemble {k : Kind} (h : k.valueless) {ts : List Tree} {pos : Nat} :
    (assemble k ts pos).isValue = false := by
  revert h
  cases k <;> simp [assemble, Tree.isValue, Tree.is]

theorem isValue_push {l : Label} {fresh : Bool} {stop : Nat} {s t : State} {a : Unit}
    (h : push l fresh stop s = .done a t) (hl : ∀ i, (State.leafOf l i stop).isValue = false)
    (hs : ∀ z ∈ s.out, z.isValue = false) : ∀ z ∈ t.out, z.isValue = false := by
  obtain ⟨-, rfl⟩ := Reply.done.inj h
  exact List.forall_mem_cons.2 ⟨hl _, isValue_flushUpTo hs⟩

theorem isValue_mark {role : Role} (hrole : role ≠ .value) {ts : List Tree}
    (h : ∀ z ∈ ts, z.isValue = false) : ∀ z ∈ mark role ts, z.isValue = false := by
  induction ts with
  | nil => exact h
  | cons t ts ih =>
    rw [List.forall_mem_cons] at h
    rw [mark]
    split
    · exact List.forall_mem_cons.2 ⟨h.1, ih h.2⟩
    · refine List.forall_mem_cons.2 ⟨?_, h.2⟩
      have ht : t.is .shorthandPropertyIdentifier = false := (Bool.or_eq_false_iff.1 h.1).2
      simp only [Tree.isValue, Tree.withRole, Tree.role_node, Bool.or_eq_false_iff]
      exact ⟨by simpa using hrole, ht⟩

instance valueless_ite {c : Prop} [Decidable c] {r q : Reader Unit} [hr : Valueless r]
    [hq : Valueless q] : Valueless (if c then r else q) := by
  split
  · exact hr
  · exact hq

instance valueless_look {f : State → Reader Unit} [h : ∀ s, Valueless (f s)] :
    Valueless (current >>= f) := by
  constructor
  intro s a t ht hs
  obtain ⟨_, _, hcurrent, ht⟩ := andThen_eq_done ht
  obtain ⟨rfl, rfl⟩ := Reply.done.inj hcurrent
  exact (h s).isValue ht hs

instance valueless_token {mark : String} : Valueless (token mark) := by
  constructor
  intro s a t h
  simp only [token, tokenWith] at h
  split at h
  · exact isValue_push h fun _ => rfl
  · simp [refuse] at h

instance valueless_leaf {kind : Kind} {stop? : Chars → Nat → Option Nat}
    [hk : Holds kind.valueless] : Valueless (leaf kind stop?) := by
  constructor
  intro s a t h
  simp only [leaf] at h
  split at h
  · exact isValue_push h fun _ => isValue_leafOf hk.holds
  · simp [refuse] at h

instance valueless_name {kind : Kind} [Holds kind.valueless] : Valueless (name kind) := by
  constructor
  intro s a t h hs
  unfold name suppliable at h
  split at h
  · obtain ⟨-, rfl⟩ := Reply.done.inj h
    exact List.forall_mem_cons.2 ⟨rfl, isValue_flushUpTo hs⟩
  · exact valueless_leaf.isValue h hs

instance valueless_node {kind : Kind} {r : Reader Unit} [hk : Holds kind.valueless] :
    Valueless (node kind r) := by
  constructor
  intro s a t h hs
  obtain ⟨b, u, -, rfl⟩ := nodeBy_eq_done h
  exact List.forall_mem_cons.2 ⟨isValue_assemble hk.holds, isValue_flushUpTo hs⟩

instance valueless_inKey {r : Reader Unit} [hr : Valueless r] : Valueless (inRole .key r) := by
  constructor
  intro s a t h hs
  unfold inRole at h
  split at h
  · next b u hu =>
    obtain ⟨-, rfl⟩ := Reply.done.inj h
    exact isValue_mark (show Role.key ≠ .value by decide) (hr.isValue hu hs)
  · simp at h

/-- What a node that holds values begins with is none of them. -/
instance lays_node_holder {kind : Kind} {r : Reader Unit} {f : Unit → Reader Unit}
    [hk : Holds kind.holder] [hr : r.Lays .adds false] [hvalue : Valueless r]
    [hf : ∀ a, (f a).Lays .keeps false] : (node kind (r >>= f)).Lays .adds false := by
  constructor
  intro s a w h
  obtain ⟨b, u, hu, rfl⟩ := nodeBy_eq_done h
  obtain ⟨c, v, hv, hvu⟩ := andThen_eq_done hu
  obtain ⟨zs, hzs, _⟩ := ((hf c).leads hvu).added nofun
  have hfirst : State.Leads .adds false _ v := hr.leads hv
  have hl : State.Leads .keeps false _ u :=
    hfirst.keeps.trans ((hf c).leads hvu) nofun nofun nofun
  have hne : v.out ≠ [] := by
    obtain ⟨ws, hws, hsolid, _⟩ := hfirst.added nofun
    obtain ⟨t, ht, _⟩ := hsolid rfl
    rw [hws]
    exact List.ne_nil_of_mem (List.mem_append_left _ ht)
  have hbare := (Kind.bare_iff _).1 (Kind.bare_of_manner (.inr (.inr (.inr hk.holds))))
  refine (State.leads_flush s).trans (State.leads_node hl ⟨rfl, rfl, rfl⟩ ⟨rfl, rfl, rfl⟩
    (by simp [hzs, hne]) hbare.2 ?_ nofun) nofun nofun (fun _ => .inr rfl)
  intro _ _
  rw [formed_holder hk.holds, hzs, List.reverse_append]
  intro t ht
  refine hvalue.isValue hv nofun t (List.mem_reverse.1 ?_)
  rw [List.head?_append_of_ne_nil _ (by simpa using hne)] at ht
  exact List.mem_of_head? ht

/-- A reader that reads no branch and no loop may be used where some may stand. -/
theorem Lays.relax {r : Reader α} (h : r.Lays .adds true) : r.Lays .adds straight := by
  constructor
  intro s a t ht
  have hl := h.leads ht
  refine ⟨hl.text, hl.le, hl.clean, ?_⟩
  intro ys base hs _ hys
  obtain ⟨zs, hzs, hsolid, hst, hlaid⟩ := hl.added nofun
  refine ⟨zs ++ ys, by rw [hzs, hs, List.append_assoc], fun _ => ?_, fun h => ?_, hlaid⟩
  · obtain ⟨t, ht, hte⟩ := hsolid rfl
    exact ⟨t, List.mem_append_left ys ht, hte⟩
  · rw [List.all_append, hst rfl, hys h]
    rfl

theorem inRole_eq_done {role : Role} {r : Reader Unit} {s t : State} {a : Unit}
    (h : inRole role r s = .done a t) :
    ∃ b u, r s = .done b u ∧ t = { u with out := mark role u.out } := by
  unfold inRole at h
  split at h
  · next b u hu => exact ⟨b, u, hu, (Reply.done.inj h).2.symm⟩
  · simp at h

/-- The name behind the keyword with which a node begins is the first child in that role. -/
instance lays_node_titled {kind : Kind} {w : String} {name : Reader Unit} {f : Unit → Reader Unit}
    [hk : Holds kind.titled] [hname : name.Lays .adds true] [hf : ∀ a, (f a).Lays .keeps false] :
    (node kind (word w >>= fun _ => inRole .name name >>= f)).Lays .adds false := by
  constructor
  intro s a w' h
  obtain ⟨b, u, hu, rfl⟩ := nodeBy_eq_done h
  obtain ⟨_, v, hv, hvu⟩ := andThen_eq_done hu
  obtain ⟨c, v', hv', hvu⟩ := andThen_eq_done hvu
  have hname' : name.Lays .adds false := hname.relax
  have hword : State.Leads .adds false _ v := lays_word.leads hv
  have htitle : State.Leads .adds false v v' := lays_inRole.leads hv'
  have hrest := (hf c).leads hvu
  obtain ⟨_, t, ht, hv'⟩ := inRole_eq_done hv'
  obtain ⟨zs, hzs, hsolid, hst, _⟩ := (hname.leads ht).added nofun
  obtain ⟨ws, hws, _⟩ := hrest.added nofun
  obtain ⟨z, hz, hrole⟩ : ∃ z ∈ mark .name zs, z.role = some .name := (hsolid rfl).exists_role
  have hboth : State.Leads .keeps false _ v' := hword.keeps.trans htitle.keeps nofun nofun nofun
  have hl : State.Leads .keeps false _ u := hboth.trans hrest nofun nofun nofun
  have hout : u.out = ws ++ (mark .name zs ++ v.out) := by
    rw [hws, hv', hzs, (hsolid rfl).mark]
  have hne : u.out ≠ [] := by
    rw [hout]
    exact List.ne_nil_of_mem (List.mem_append_right ws (List.mem_append_left _ hz))
  have hbare := (Kind.bare_iff _).1 (Kind.bare_of_manner (.inr (.inr (.inl hk.holds))))
  refine (State.leads_flush s).trans (State.leads_node hl ⟨rfl, rfl, rfl⟩ ⟨rfl, rfl, rfl⟩ hne
    hbare.2 ?_ nofun) nofun nofun (fun _ => .inr rfl)
  intro hc hs
  rw [hout, clean_append, clean_append] at hc
  obtain ⟨i, j, hij⟩ := out_word_eq hv hs hc.2.2
  rw [formed_titled hk.holds, hout, hij]
  intro y hy
  -- The keyword has no role, and one of the trees behind it is the name.
  simp only [List.reverse_append, List.reverse_singleton, List.cons_append, List.append_assoc]
    at hy
  rw [List.nil_append, List.find?_cons_of_neg (by simp [State.leafOf]), List.find?_append] at hy
  cases hfound : (mark .name zs).reverse.find? fun c => decide (c.role = some .name) with
  | none => simpa [hrole] using List.find?_eq_none.1 hfound z (List.mem_reverse.2 hz)
  | some x =>
    obtain rfl : x = y := by simpa [hfound] using hy
    have hall : (mark .name zs).all Tree.straight := by rw [all_straight_mark, hst rfl]
    exact List.all_eq_true.1 hall x (List.mem_reverse.1 (List.mem_of_find?_eq_some hfound))

theorem lays_wrap_of {straight' : Bool} {kind : Kind} {role : Option Role} {r : Reader Unit}
    (hr : r.Lays .keeps straight') (hk : kind.bare) (hle : straight → straight')
    (hf : ∀ (first : Tree) (ts : List Tree), (straight → first.straight) →
      (straight' → ts.all Tree.straight) → Formed (.rule kind) (first.withRole role :: ts)) :
    (wrap kind role r).Lays .grows straight := by
  constructor
  intro s a w h
  unfold wrap at h
  split at h
  · simp [refuse] at h
  · next first rest hout =>
    split at h
    · next b u hu =>
      obtain ⟨-, rfl⟩ := Reply.done.inj h
      exact State.leads_wrap hout (hr.leads hu) hle ⟨rfl, rfl, rfl⟩ ⟨rfl, rfl, rfl⟩ hk (hf first)
    · simp at h

instance lays_wrap {kind : Kind} {role : Option Role} {r : Reader Unit} [hk : Holds kind.ordinary]
    [hr : r.Lays .keeps straight] : (wrap kind role r).Lays .grows straight :=
  lays_wrap_of hr (Kind.bare_of_manner (.inl hk.holds)) id
    (fun _ _ _ _ => formed_ordinary hk.holds _)

instance lays_wrap_textual {kind : Kind} {role : Option Role} {r : Reader Unit}
    [hk : Holds kind.textual] [hr : r.Lays .keeps true] : (wrap kind role r).Lays .grows true := by
  refine lays_wrap_of hr (Kind.bare_of_manner (.inr (.inl hk.holds))) id fun first ts hfirst hts => ?_
  rw [formed_textual hk.holds, List.all_cons, Tree.straight_withRole, hfirst rfl, hts rfl]
  rfl

/-- What stands behind the object of a member is its name. -/
instance lays_wrap_member {r : Reader Unit} [hr : r.Lays .keeps true] :
    (wrap .memberExpression (some .object) r).Lays .grows straight := by
  refine lays_wrap_of hr rfl (fun _ => rfl) fun first ts _ hts => ?_
  rw [formed_member]
  intro t ht hrole
  rcases List.mem_cons.1 ht with rfl | ht
  · simp [Tree.withRole] at hrole
  · exact List.all_eq_true.1 (hts rfl) t ht

/-! ### Lists -/

instance lays_separated {item : Reader Unit} [item.Lays .adds straight] :
    (separated item).Lays .adds straight := by
  unfold separated
  infer_instance

instance lays_listed {item : Reader Unit} [item.Lays .adds straight] :
    (listed item).Lays .keeps straight := by
  unfold listed
  infer_instance

instance lays_sparse {item : Reader Unit} [item.Lays .adds straight] :
    (sparse item).Lays .keeps straight := by
  unfold sparse
  infer_instance

end Reader

end FlowAnalysis.Syntax
