/-
  A queue between an interrupt handler and a loop.

  The handler puts symbols into the queue at any time.  The loop takes one symbol out, decodes it,
  and hands the answer to a consumer, which may fail; the handler may run in between, with an answer
  in the loop's hand.

  * `Tracks`     : the symbols that were put in are those that were decoded and those still queued;
    the answers are those that were consumed and the one in hand;
  * `run_tracks` : whatever the order in which handler and loop take turns, this holds, and the run
    does not fail unless the consumer fails on the decoded symbols;
  * `drain`      : two turns of the loop for each queued symbol empty queue and hand.
-/
import MyOs.Lib.LineEditor
import MyOs.Lib.Mealy

namespace MyOs.Lib.Pipeline

open MyOs.Lib.LineEditor (feed feed_cons)
open MyOs.Lib.Mealy (run run_append)

universe u

variable {α β γ δ τ : Type u}

/-- Queue, decoder, the answer in hand, consumer, and what it has reported. -/
structure State (α β γ δ τ : Type u) where
  queue : List α
  decoder : δ
  hand : Option β
  consumer : τ
  log : List γ

/-- The handler runs, or the loop. -/
inductive Action (α : Type u) where
  | put (a : α)
  | turn

/-- What the handler puts in. -/
def puts : List (Action α) → List α
  | [] => []
  | .put a :: actions => a :: puts actions
  | .turn :: actions => puts actions

theorem puts_replicate_turn : ∀ n, puts (List.replicate n (.turn : Action α)) = []
  | 0 => rfl
  | n + 1 => puts_replicate_turn n

theorem puts_append : ∀ actions actions' : List (Action α),
    puts (actions ++ actions') = puts actions ++ puts actions'
  | [], _ => rfl
  | .put a :: actions, actions' => congrArg (a :: ·) (puts_append actions actions')
  | .turn :: actions, actions' => puts_append actions actions'

/-- A consumer that does not fail on `done` reads one symbol more. -/
theorem feed_concat {step : τ → β → Option (τ × List γ)} {c : β} : ∀ {done : List β} {t t' : τ}
    {log : List γ}, feed step t done = some (t', log) →
    feed step t (done ++ [c]) = (step t' c).map fun r => (r.1, log ++ r.2)
  | [], t, t', log, h => by
    obtain ⟨rfl, rfl⟩ := Prod.mk.inj (Option.some.inj h)
    rw [List.nil_append]
    cases hstep : step t c with
    | none => simp only [feed, hstep, Option.bind_eq_bind, Option.bind_none, Option.map_none]
    | some r =>
      rw [feed_cons hstep]
      simp only [feed, Option.map_some, List.append_nil, List.nil_append]
  | b :: done, t, t', log, h => by
    rw [List.cons_append]
    cases hstep : step t b with
    | none =>
      simp only [feed, hstep, Option.bind_eq_bind, Option.bind_none] at h
      exact absurd h.symm (Option.some_ne_none _)
    | some r =>
      rw [feed_cons hstep] at h ⊢
      obtain ⟨⟨t₁, log₁⟩, hrest, heq⟩ := Option.map_eq_some_iff.mp h
      obtain ⟨rfl, rfl⟩ := Prod.mk.inj heq
      rw [feed_concat hrest, Option.map_map]
      refine congrArg (Option.map · (step t₁ c)) (funext fun r' => ?_)
      simp only [Function.comp_apply, List.append_assoc]

/-- Symbols that a consumer ignores. -/
theorem feed_filter {step : τ → β → Option (τ × List γ)} {p : β → Bool}
    (hignore : ∀ t c, p c = false → step t c = some (t, [])) : ∀ (cs : List β) (t : τ),
    feed step t (cs.filter p) = feed step t cs
  | [], _ => rfl
  | c :: cs, t => by
    cases hp : p c with
    | false =>
      rw [List.filter_cons_of_neg (by rw [hp]; exact Bool.false_ne_true),
        feed_cons (hignore t c hp), feed_filter hignore cs t]
      cases feed step t cs with
      | none => rfl
      | some r => rfl
    | true =>
      rw [List.filter_cons_of_pos hp]
      cases hstep : step t c with
      | none => simp only [feed, hstep, Option.bind_eq_bind, Option.bind_none]
      | some r => rw [feed_cons hstep, feed_cons hstep, feed_filter hignore cs r.1]

section Machine

variable (decode : δ → α → β × δ) (consume : τ → β → Option (τ × List γ))

/-- One turn of the loop: the answer in hand is consumed, or else the next symbol is decoded. -/
def State.turn (s : State α β γ δ τ) : Option (State α β γ δ τ) :=
  match s.hand with
  | some b => (consume s.consumer b).map fun r =>
      { s with hand := none, consumer := r.1, log := s.log ++ r.2 }
  | none =>
    match s.queue with
    | [] => some s
    | a :: queue => some { s with
        queue, decoder := (decode s.decoder a).2, hand := some (decode s.decoder a).1 }

def State.act (s : State α β γ δ τ) : Action α → Option (State α β γ δ τ)
  | .put a => some { s with queue := s.queue ++ [a] }
  | .turn => s.turn decode consume

/-- Nothing queued and nothing in hand. -/
def start (d : δ) (t : τ) : State α β γ δ τ := ⟨[], d, none, t, []⟩

/-- Where the symbols `input` are. -/
structure Tracks (d : δ) (t : τ) (input : List α) (s : State α β γ δ τ) (taken : List α)
    (done : List β) : Prop where
  input_eq : input = taken ++ s.queue
  decoder_eq : s.decoder = (run decode d taken).2
  answers_eq : (run decode d taken).1 = done ++ s.hand.toList
  consumer_eq : feed consume t done = some (s.consumer, s.log)

/-- The consumer does not fail on the decoded symbols. -/
def Accepts (d : δ) (t : τ) (input : List α) : Prop :=
  ∀ done, done <+: (run decode d input).1 → (feed consume t done).isSome

variable {decode} {consume} {d : δ} {t : τ} {input : List α} {s : State α β γ δ τ}
  {taken : List α} {done : List β}

theorem tracks_start : Tracks decode consume d t [] (start d t) [] [] := ⟨rfl, rfl, rfl, rfl⟩

/-- The answers to the first symbols are the first answers. -/
theorem run_prefix_answers (hinput : input = taken ++ s.queue) :
    (run decode d taken).1 <+: (run decode d input).1 := by
  rw [hinput, run_append]
  exact List.prefix_append _ _

theorem Tracks.done_answers (h : Tracks decode consume d t input s taken done) :
    done <+: (run decode d input).1 := by
  refine List.IsPrefix.trans ?_ (run_prefix_answers (s := s) h.input_eq)
  rw [h.answers_eq]
  exact List.prefix_append _ _

/-- How many turns are left. -/
def State.rest (s : State α β γ δ τ) : Nat := 2 * s.queue.length + s.hand.toList.length

/-- A turn of the loop. -/
theorem Tracks.turn (h : Tracks decode consume d t input s taken done)
    (haccepts : Accepts decode consume d t input) : ∃ s' taken' done',
      s.turn decode consume = some s' ∧ Tracks decode consume d t input s' taken' done' ∧
      s'.rest = s.rest - 1 := by
  obtain ⟨queue, decoder, hand, consumer, log⟩ := s
  obtain ⟨hinput, hdecoder, hanswers, hconsumer⟩ := h
  dsimp only at hinput hdecoder hanswers hconsumer
  cases hand with
  | some b =>
    -- the answer in hand is the next one
    have hnext : (feed consume t (done ++ [b])).isSome := by
      refine haccepts _ ?_
      have hfirst : (run decode d taken).1 <+: (run decode d input).1 :=
        run_prefix_answers (s := ⟨queue, decoder, some b, consumer, log⟩) hinput
      rwa [hanswers] at hfirst
    rw [feed_concat hconsumer, Option.isSome_map] at hnext
    obtain ⟨⟨consumer', out⟩, hconsume⟩ := Option.isSome_iff_exists.mp hnext
    refine ⟨⟨queue, decoder, none, consumer', log ++ out⟩, taken, done ++ [b], ?_, ?_, ?_⟩
    · simp only [State.turn, hconsume, Option.map_some]
    · refine ⟨hinput, hdecoder, ?_, ?_⟩
      · rw [hanswers]
        exact (List.append_nil _).symm
      · rw [feed_concat hconsumer, hconsume]
        rfl
    · simp only [State.rest, Option.toList_none, Option.toList_some, List.length_nil,
        List.length_singleton]
      omega
  | none =>
    cases queue with
    | nil =>
      exact ⟨⟨[], decoder, none, consumer, log⟩, taken, done, rfl,
        ⟨hinput, hdecoder, hanswers, hconsumer⟩, rfl⟩
    | cons a queue =>
      refine ⟨⟨queue, (decode decoder a).2, some (decode decoder a).1, consumer, log⟩,
        taken ++ [a], done, rfl, ?_, ?_⟩
      · refine ⟨?_, ?_, ?_, hconsumer⟩
        · rw [hinput, List.append_assoc, List.singleton_append]
        · rw [run_append, ← hdecoder]
          rfl
        · rw [run_append, hanswers, ← hdecoder, Option.toList_none, List.append_nil]
          rfl
      · simp only [State.rest, Option.toList_none, Option.toList_some, List.length_nil,
          List.length_cons]
        omega

/-- What the handler puts in is queued. -/
theorem Tracks.put (h : Tracks decode consume d t input s taken done) (a : α) :
    Tracks decode consume d t (input ++ [a]) { s with queue := s.queue ++ [a] } taken done := by
  refine ⟨?_, h.decoder_eq, h.answers_eq, h.consumer_eq⟩
  rw [h.input_eq, List.append_assoc]

theorem Accepts.append {rest : List α} (h : Accepts decode consume d t (input ++ rest)) :
    Accepts decode consume d t input := by
  intro done hdone
  refine h done (hdone.trans ?_)
  rw [run_append]
  exact List.prefix_append _ _

/-- **Any order of turns** keeps track of every symbol. -/
theorem run_tracks {actions : List (Action α)} (h : Tracks decode consume d t input s taken done)
    (haccepts : Accepts decode consume d t (input ++ puts actions)) :
    ∃ s' taken' done', actions.foldlM (State.act decode consume) s = some s' ∧
      Tracks decode consume d t (input ++ puts actions) s' taken' done' := by
  induction actions generalizing input s taken done with
  | nil =>
    rw [puts, List.append_nil]
    exact ⟨s, taken, done, rfl, h⟩
  | cons action actions ih =>
    cases action with
    | put a =>
      have hsymbols : input ++ puts (.put a :: actions) = input ++ [a] ++ puts actions := by
        rw [puts, List.append_assoc, List.singleton_append]
      rw [hsymbols] at haccepts ⊢
      exact ih (h.put a) haccepts
    | turn =>
      rw [puts] at haccepts ⊢
      obtain ⟨s', taken', done', hturn, h', -⟩ := h.turn haccepts.append
      obtain ⟨s'', taken'', done'', hrun, h''⟩ := ih h' haccepts
      refine ⟨s'', taken'', done'', ?_, h''⟩
      rw [List.foldlM_cons]
      show (s.turn decode consume).bind _ = _
      rw [hturn]
      exact hrun

/-- **Turns of the loop empty the queue**, two for each symbol. -/
theorem drain (haccepts : Accepts decode consume d t input) {n : Nat}
    (h : Tracks decode consume d t input s taken done) (hrest : s.rest ≤ n) :
    ∃ s', (List.replicate n .turn).foldlM (State.act decode consume) s = some s' ∧
      feed consume t (run decode d input).1 = some (s'.consumer, s'.log) := by
  induction n generalizing s taken done with
  | zero =>
    obtain ⟨queue, decoder, hand, consumer, log⟩ := s
    obtain ⟨hinput, -, hanswers, hconsumer⟩ := h
    dsimp only [State.rest] at hinput hanswers hconsumer hrest
    obtain rfl : queue = [] := List.eq_nil_of_length_eq_zero (by omega)
    obtain rfl : hand = none := by
      rcases hand with _ | b
      · rfl
      · exact absurd hrest (by simp)
    rw [List.append_nil] at hinput
    rw [Option.toList_none, List.append_nil] at hanswers
    refine ⟨_, rfl, ?_⟩
    rw [hinput, hanswers, hconsumer]
  | succ n ih =>
    obtain ⟨s', taken', done', hturn, h', hless⟩ := h.turn haccepts
    obtain ⟨s'', hrun, hfeed⟩ := ih h' (by omega)
    refine ⟨s'', ?_, hfeed⟩
    rw [List.replicate_succ, List.foldlM_cons]
    show (s.turn decode consume).bind _ = _
    rw [hturn]
    exact hrun

end Machine

end MyOs.Lib.Pipeline
