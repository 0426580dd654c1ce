import AiCloud.Lib.Program

/-!
# Durable workflows

A workflow runs in turns. A turn is a program that calls activities, and its
answer decides whether there is another turn. Activities run at least once: an
attempt may be repeated, may run again long after its call was answered, and a
call may be answered from any of its attempts or be given up. Others change the
shared state in between.
-/
namespace AiCloud.Lib
open List

inductive Turn (ρ ω : Type)
  | again (r : ρ)
  | returned (w : ω)

/-- Where activities run: one attempt, with what it takes from outside; the
answer of a call that was given up; and what others do to the state. -/
structure Host (σ τ Q : Type) (A : Q → Type) where
  perform : τ → σ → (q : Q) → A q × σ
  lost : (q : Q) → A q
  other : σ → σ → Prop

/-- A workflow in the middle of a turn. Besides the program that is left it has
the state and argument the turn began with, the answers it was told, the results
of the attempts of the pending call, and all calls ever made. -/
structure Durable (σ Q : Type) (A : Q → Type) (ρ ω : Type) where
  (shared since : σ)
  arg : ρ
  current : Prog Q A (Turn ρ ω)
  (told outcomes : List (Sigma A))
  issued : List Q

namespace Durable

inductive Label
  | attempt
  | duplicate
  | reply
  | other
  | idle
  deriving DecidableEq

variable {σ τ Q : Type} {A : Q → Type} {ρ ω : Type}

def asked : Prog Q A (Turn ρ ω) → List Q
  | .ask q _ => [q]
  | .ret _ => []

/-- The first turn, with the program `p`. -/
def start (s : σ) (r : ρ) (p : Prog Q A (Turn ρ ω)) : Durable σ Q A ρ ω :=
  ⟨s, s, r, p, [], [], asked p⟩

/-- The workflow after an answer. -/
def resume (turn : ρ → Prog Q A (Turn ρ ω)) (d : Durable σ Q A ρ ω) (e : Sigma A) :
    Prog Q A (Turn ρ ω) → Durable σ Q A ρ ω
  | .ret (.again r) => ⟨d.shared, d.shared, r, turn r, [], [], d.issued ++ asked (turn r)⟩
  | p =>
    { d with current := p, told := d.told ++ [e], outcomes := [], issued := d.issued ++ asked p }

section Runs

variable (host : Host σ τ Q A) (turn : ρ → Prog Q A (Turn ρ ω))

inductive Step : Label → Durable σ Q A ρ ω → Durable σ Q A ρ ω → Prop
  | attempt {d : Durable σ Q A ρ ω} {q : Q} {k : A q → Prog Q A (Turn ρ ω)} (x : τ) :
      d.current = .ask q k →
      Step .attempt d
        { d with
          shared := (host.perform x d.shared q).2
          outcomes := d.outcomes ++ [⟨q, (host.perform x d.shared q).1⟩] }
  | duplicate {d : Durable σ Q A ρ ω} {q : Q} (x : τ) : q ∈ d.issued →
      Step .duplicate d { d with shared := (host.perform x d.shared q).2 }
  | reply {d : Durable σ Q A ρ ω} {q : Q} {k : A q → Prog Q A (Turn ρ ω)} {a : A q} :
      d.current = .ask q k → ⟨q, a⟩ ∈ d.outcomes ∨ a = host.lost q →
      Step .reply d (d.resume turn ⟨q, a⟩ (k a))
  | other {d : Durable σ Q A ρ ω} {s : σ} : host.other d.shared s →
      Step .other d { d with shared := s }
  | idle {d : Durable σ Q A ρ ω} : Step .idle d d

/-- What a workflow keeps to: which calls it makes and how a turn ends, an invariant
of the state, how states follow each other, what an answer tells about the state
when the turn began and the state now, and what the argument of a turn stands for. -/
structure Contract (σ Q : Type) (A : Q → Type) (ρ ω : Type) where
  proper : Q → Prop
  allowed : ρ → List (Sigma A) → Q → Prop
  final : ρ → List (Sigma A) → Turn ρ ω → Prop
  inv : σ → Prop
  next : σ → σ → Prop
  tells : σ → σ → Sigma A → Prop
  arg : ρ → σ → Prop

structure Contract.Sound (c : Contract σ Q A ρ ω) : Prop where
  refl : ∀ s, c.next s s
  trans : ∀ {s t u}, c.next s t → c.next t u → c.next s u
  conforms : ∀ r, Prog.Conforms (c.allowed r) (c.final r) [] (turn r)
  proper : ∀ {r h q}, c.allowed r h q → c.proper q
  perform : ∀ {s q} (x : τ), c.proper q → c.inv s →
    c.inv (host.perform x s q).2 ∧ c.next s (host.perform x s q).2
  other : ∀ {s t}, host.other s t → c.inv s → c.inv t ∧ c.next s t
  answer : ∀ {r h since s q} (x : τ), c.allowed r h q → c.inv s → c.next since s →
    (∀ e ∈ h, c.tells since s e) → c.tells since (host.perform x s q).2 ⟨q, (host.perform x s q).1⟩
  lost : ∀ {since s q}, c.tells since s ⟨q, host.lost q⟩
  stable : ∀ {since s t e}, c.tells since s e → c.next since s → c.next s t → c.tells since t e
  arg_next : ∀ {r s t}, c.arg r s → c.next s t → c.arg r t
  arg_again : ∀ {r h since s r'}, c.arg r s → (∀ e ∈ h, c.tells since s e) →
    c.final r h (.again r') → c.arg r' s

/-- What holds in every reachable state. -/
structure Holds (c : Contract σ Q A ρ ω) (d : Durable σ Q A ρ ω) : Prop where
  inv : c.inv d.shared
  next : c.next d.since d.shared
  arg : c.arg d.arg d.shared
  issued : ∀ q ∈ d.issued, c.proper q
  conforms : Prog.Conforms (c.allowed d.arg) (c.final d.arg) d.told d.current
  told : ∀ e ∈ d.told, c.tells d.since d.shared e
  outcomes : ∀ e ∈ d.outcomes, c.tells d.since d.shared e

variable {host turn} {c : Contract σ Q A ρ ω} (hs : c.Sound host turn)

include hs

variable {p : Prog Q A (Turn ρ ω)}

theorem asked_proper {r : ρ} {h : List (Sigma A)}
    (hp : Prog.Conforms (c.allowed r) (c.final r) h p) : ∀ q ∈ asked p, c.proper q := by
  cases p with
  | ret a => exact forall_mem_nil _
  | ask q k => exact forall_mem_singleton.mpr (hs.proper hp.1)

variable {d d' : Durable σ Q A ρ ω}

theorem Holds.moved (h : Holds c d) {s : σ} (hI : c.inv s) (hn : c.next d.shared s) :
    Holds c { d with shared := s } :=
  ⟨hI, hs.trans h.next hn, hs.arg_next h.arg hn, h.issued, h.conforms,
    fun e he => hs.stable (h.told e he) h.next hn,
    fun e he => hs.stable (h.outcomes e he) h.next hn⟩

theorem Holds.resume (h : Holds c d) {e : Sigma A} (he : c.tells d.since d.shared e)
    (hp : Prog.Conforms (c.allowed d.arg) (c.final d.arg) (d.told ++ [e]) p) :
    Holds c (d.resume turn e p) := by
  have htold : ∀ e' ∈ d.told ++ [e], c.tells d.since d.shared e' :=
    forall_mem_append.mpr ⟨h.told, forall_mem_singleton.mpr he⟩
  have hissued : ∀ {r : ρ} {h' : List (Sigma A)} {p' : Prog Q A (Turn ρ ω)},
      Prog.Conforms (c.allowed r) (c.final r) h' p' → ∀ q ∈ d.issued ++ asked p', c.proper q := by
    intro r h' p' hp'
    exact forall_mem_append.mpr ⟨h.issued, asked_proper hs hp'⟩
  unfold Durable.resume
  split
  · rename_i r
    exact ⟨h.inv, hs.refl _, hs.arg_again h.arg htold hp, hissued (hs.conforms r), hs.conforms r,
      forall_mem_nil _, forall_mem_nil _⟩
  · exact ⟨h.inv, h.next, h.arg, hissued hp, hp, htold, forall_mem_nil _⟩

variable {l : Label}

theorem Holds.step (h : Holds c d) (hstep : Step host turn l d d') : Holds c d' := by
  cases hstep with
  | attempt x hc =>
    have hconf := h.conforms
    rw [hc] at hconf
    obtain ⟨hI, hn⟩ := hs.perform x (hs.proper hconf.1) h.inv
    have hm := h.moved hs hI hn
    refine ⟨hm.inv, hm.next, hm.arg, hm.issued, hm.conforms, hm.told, ?_⟩
    exact forall_mem_append.mpr ⟨hm.outcomes,
      forall_mem_singleton.mpr (hs.answer x hconf.1 h.inv h.next h.told)⟩
  | duplicate x hq =>
    obtain ⟨hI, hn⟩ := hs.perform x (h.issued _ hq) h.inv
    exact h.moved hs hI hn
  | reply hc ha =>
    have hconf := h.conforms
    rw [hc] at hconf
    refine h.resume hs ?_ (hconf.2 _)
    rcases ha with hout | rfl
    · exact h.outcomes _ hout
    · exact hs.lost
  | other ho =>
    obtain ⟨hI, hn⟩ := hs.other ho h.inv
    exact h.moved hs hI hn
  | idle => exact h

variable {ls : List Label}

theorem Contract.Sound.holds {s : σ} {r : ρ} (hI : c.inv s) (hr : c.arg r s)
    (hp : Prog.Conforms (c.allowed r) (c.final r) [] p)
    (ht : Trace (Step host turn) (start s r p) ls d) : Holds c d := by
  refine ht.invariant (I := fun _ => Holds c) ?_ ?_
  · exact ⟨hI, hs.refl s, hr, asked_proper hs hp, hp, forall_mem_nil _, forall_mem_nil _⟩
  · exact fun _ l d d' h => h.step hs

omit hs

/-- An endless run; one that has nothing more to do idles. -/
structure Forever (host : Host σ τ Q A) (turn : ρ → Prog Q A (Turn ρ ω))
    (d : Durable σ Q A ρ ω) where
  states : Nat → Durable σ Q A ρ ω
  labels : Nat → Label
  first : states 0 = d
  step : ∀ n, Step host turn (labels n) (states n) (states (n + 1))

def Pending (d : Durable σ Q A ρ ω) : Prop := ∃ q k, d.current = .ask q k

def Returned (d : Durable σ Q A ρ ω) : Prop := ∃ w, d.current = .ret (.returned w)

/-- Every call is answered at some time. -/
def Forever.Answered {d : Durable σ Q A ρ ω} (run : Forever host turn d) : Prop :=
  ∀ n, (run.states n).Pending → ∃ m, n ≤ m ∧ run.labels m = .reply

theorem Forever.trace (run : Forever host turn d) (n : Nat) :
    ∃ ls, Trace (Step host turn) d ls (run.states n) := by
  induction n with
  | zero =>
    rw [run.first]
    exact ⟨[], .nil⟩
  | succ n ih =>
    obtain ⟨ls, ht⟩ := ih
    exact ⟨ls ++ [run.labels n], ht.snoc (run.step n)⟩

@[simp] theorem resume_shared (d : Durable σ Q A ρ ω) (e : Sigma A) (p : Prog Q A (Turn ρ ω)) :
    (d.resume turn e p).shared = d.shared := by
  unfold resume
  split <;> rfl

theorem Step.same_turn (h : Step host turn l d d') (hl : l ≠ .reply) :
    d'.current = d.current ∧ d'.since = d.since := by
  cases h with
  | reply => exact absurd rfl hl
  | attempt | duplicate | other | idle => exact ⟨rfl, rfl⟩

/-- Where others do nothing the state moves by activities only. -/
theorem Step.calm (hs : c.Sound host turn) {calm : σ → σ → Prop} (refl : ∀ s, calm s s)
    (perform : ∀ {s q} (x : τ), c.proper q → c.inv s → calm s (host.perform x s q).2)
    (h : Step host turn l d d') (hl : l ≠ .other) (hd : Holds c d) :
    calm d.shared d'.shared := by
  cases h with
  | attempt x hc =>
    have hconf := hd.conforms
    rw [hc] at hconf
    exact perform x (hs.proper hconf.1) hd.inv
  | duplicate x hin => exact perform x (hd.issued _ hin) hd.inv
  | reply =>
    rw [resume_shared]
    exact refl _
  | other => exact absurd rfl hl
  | idle => exact refl _

theorem Step.replied (hs : c.Sound host turn) {q : Q} {k : A q → Prog Q A (Turn ρ ω)}
    (h : Step host turn .reply d d') (hd : Holds c d) (hc : d.current = .ask q k) :
    ∃ a, c.tells d.since d.shared ⟨q, a⟩ ∧ d' = d.resume turn ⟨q, a⟩ (k a) := by
  cases h with
  | @reply _ q' k' a hc' ha =>
    rw [hc] at hc'
    cases hc'
    refine ⟨a, ?_, rfl⟩
    rcases ha with hout | rfl
    · exact hd.outcomes _ hout
    · exact hs.lost

theorem Step.shape (hasks : ∀ r, ∃ q k, turn r = .ask q k)
    (h : Step host turn l d d') (hd : d.Pending ∨ d.Returned) : d'.Pending ∨ d'.Returned := by
  cases h with
  | attempt | duplicate | other | idle => exact hd
  | @reply _ q k a hc ha =>
    cases hk : k a with
    | ask q' k' => exact .inl ⟨q', k', rfl⟩
    | ret t =>
      cases t with
      | again r => exact .inl (hasks r)
      | returned w => exact .inr ⟨w, rfl⟩

/-- A run that others leave alone from some time on, with a relation that the
activities keep and a measure that every turn lowers. -/
structure Quiet (c : Contract σ Q A ρ ω) {d : Durable σ Q A ρ ω} (run : Forever host turn d)
    (begun : Nat) (calm : σ → σ → Prop) (measure : σ → Nat) : Prop where
  sound : c.Sound host turn
  holds : ∀ n, Holds c (run.states n)
  shape : ∀ n, (run.states n).Pending ∨ (run.states n).Returned
  answered : run.Answered
  alone : ∀ n, begun ≤ n → run.labels n ≠ .other
  refl : ∀ s, calm s s
  trans : ∀ {s t u}, calm s t → calm t u → calm s u
  perform : ∀ {s q} (x : τ), c.proper q → c.inv s → calm s (host.perform x s q).2
  lowers : ∀ {r h since s r'}, calm since s → c.inv s → (∀ e ∈ h, c.tells since s e) →
    c.final r h (.again r') → measure s < measure since

section

variable {d : Durable σ Q A ρ ω} {run : Forever host turn d} {begun : Nat} {calm : σ → σ → Prop}
  {measure : σ → Nat} (hq : Quiet c run begun calm measure)

include hq

theorem Quiet.reply {n : Nat} (hn : begun ≤ n) (hp : (run.states n).Pending) :
    ∃ m, n ≤ m ∧ run.labels m = .reply ∧ (run.states m).current = (run.states n).current ∧
      (run.states m).since = (run.states n).since ∧
      calm (run.states n).shared (run.states m).shared := by
  obtain ⟨m, hnm, hm⟩ := hq.answered n hp
  obtain ⟨gap, rfl⟩ := Nat.exists_eq_add_of_le hnm
  clear hnm
  induction gap generalizing n with
  | zero => exact ⟨n, Nat.le_refl n, hm, rfl, rfl, hq.refl _⟩
  | succ gap ih =>
    by_cases hl : run.labels n = .reply
    · exact ⟨n, Nat.le_refl n, hl, rfl, rfl, hq.refl _⟩
    obtain ⟨hcur, hsince⟩ := (run.step n).same_turn hl
    have hcalm := (run.step n).calm hq.sound hq.refl hq.perform (hq.alone n hn) (hq.holds n)
    have hp' : (run.states (n + 1)).Pending := by
      unfold Pending
      rw [hcur]
      exact hp
    obtain ⟨k, hk, hreply, hcur', hsince', hcalm'⟩ :=
      ih (Nat.le_succ_of_le hn) hp' (by rw [← hm]; congr 1; omega)
    exact ⟨k, Nat.le_of_succ_le hk, hreply, hcur'.trans hcur, hsince'.trans hsince,
      hq.trans hcalm hcalm'⟩

/-- A turn comes to its end, and the next one begins lower. -/
theorem Quiet.turn_ends (p : Prog Q A (Turn ρ ω)) {n : Nat} (hn : begun ≤ n)
    (hp : (run.states n).current = p) : (∃ m, (run.states m).Returned) ∨
    ∃ m, begun ≤ m ∧ (run.states m).since = (run.states m).shared ∧
      (calm (run.states n).since (run.states n).shared →
        measure (run.states m).since < measure (run.states n).since) := by
  induction p generalizing n with
  | ret t =>
    rcases hq.shape n with ⟨q, k, hask⟩ | hret
    · rw [hp] at hask
      cases hask
    · exact .inl ⟨n, hret⟩
  | ask q k ih =>
    obtain ⟨m, hnm, hl, hcur, hsince, hcalm⟩ := hq.reply hn ⟨q, k, hp⟩
    have hstep := run.step m
    rw [hl] at hstep
    obtain ⟨a, htell, hnext⟩ := hstep.replied hq.sound (hq.holds m) (hcur.trans hp)
    have hconf := (hq.holds m).conforms
    rw [hcur.trans hp] at hconf
    have hfinal := hconf.2 a
    have hsame : calm (run.states n).since (run.states n).shared →
        calm (run.states m).since (run.states m).shared :=
      fun h => hsince ▸ hq.trans h hcalm
    cases hk : k a with
    | ret t =>
      rw [hk] at hfinal hnext
      cases t with
      | returned w => exact .inl ⟨m + 1, w, by rw [hnext]; rfl⟩
      | again r =>
        have hbegin : (run.states (m + 1)).since = (run.states m).shared := by
          rw [hnext]
          rfl
        refine .inr ⟨m + 1, by omega, ?_, fun h => ?_⟩
        · rw [hnext]
          rfl
        · rw [hbegin, ← hsince]
          refine hq.lowers (hsame h) (hq.holds m).inv ?_ hfinal
          exact forall_mem_append.mpr ⟨(hq.holds m).told, forall_mem_singleton.mpr htell⟩
    | ask q' k' =>
      have hmoved : (run.states (m + 1)).current = k a ∧
          (run.states (m + 1)).since = (run.states n).since ∧
          (run.states (m + 1)).shared = (run.states m).shared := by
        rw [hnext, hk]
        exact ⟨rfl, hsince, rfl⟩
      obtain ⟨hcur', hsince', hshared'⟩ := hmoved
      rcases ih a (by omega) hcur' with hret | ⟨i, hi, hfresh, hlower⟩
      · exact .inl hret
      refine .inr ⟨i, hi, hfresh, fun h => ?_⟩
      rw [← hsince']
      refine hlower ?_
      rw [hsince', hshared', ← hsince]
      exact hsame h

theorem Quiet.returned : ∃ n, (run.states n).Returned := by
  have hlow : ∀ bound n, begun ≤ n → (run.states n).since = (run.states n).shared →
      measure (run.states n).since = bound → ∃ m, (run.states m).Returned := by
    intro bound
    induction bound using Nat.strongRecOn with
    | ind bound ih =>
      rintro n hn hfresh rfl
      rcases hq.turn_ends _ hn rfl with hret | ⟨m, hm, hfresh', hlt⟩
      · exact hret
      · exact ih _ (hlt (hfresh ▸ hq.refl _)) m hm hfresh' rfl
  rcases hq.turn_ends _ (Nat.le_refl begun) rfl with hret | ⟨m, hm, hfresh, _⟩
  · exact hret
  · exact hlow _ m hm hfresh rfl

end

/-- A move of a script: an attempt of the pending call, an answer to it from the
last attempt or without any, or a write of others. -/
inductive Move (τ υ : Type)
  | attempt (x : τ)
  | answer
  | lose
  | write (w : υ)

def Move.label {υ : Type} : Move τ υ → Label
  | .attempt _ => .attempt
  | .answer => .reply
  | .lose => .reply
  | .write _ => .other

section Script

variable {υ : Type} [DecidableEq Q] (host : Host σ τ Q A) (turn : ρ → Prog Q A (Turn ρ ω))
  (write : υ → σ → Option σ)

def move (d : Durable σ Q A ρ ω) : Move τ υ → Option (Durable σ Q A ρ ω)
  | .attempt x =>
    match d.current with
    | .ret _ => none
    | .ask q _ =>
      some { d with
        shared := (host.perform x d.shared q).2
        outcomes := d.outcomes ++ [⟨q, (host.perform x d.shared q).1⟩] }
  | .answer =>
    match d.current, d.outcomes.getLast? with
    | .ask q k, some ⟨asked, a⟩ =>
      if h : asked = q then some (d.resume turn ⟨q, h ▸ a⟩ (k (h ▸ a))) else none
    | _, _ => none
  | .lose =>
    match d.current with
    | .ret _ => none
    | .ask q k => some (d.resume turn ⟨q, host.lost q⟩ (k (host.lost q)))
  | .write w => (write w d.shared).map (fun s => { d with shared := s })

def play (d : Durable σ Q A ρ ω) : List (Move τ υ) → Option (Durable σ Q A ρ ω)
  | [] => some d
  | m :: ms => (d.move host turn write m).bind (fun d' => d'.play ms)

variable {host turn write}

theorem move_step (hw : ∀ w s t, write w s = some t → host.other s t) {m : Move τ υ}
    (h : d.move host turn write m = some d') : Step host turn m.label d d' := by
  cases m with
  | attempt x =>
    simp only [move] at h
    split at h
    · cases h
    rename_i hc
    cases h
    exact .attempt x hc
  | answer =>
    simp only [move] at h
    split at h
    · rename_i q k asked a hc hlast
      split at h
      · rename_i hq
        subst hq
        cases h
        exact .reply hc (.inl (mem_of_getLast? hlast))
      · cases h
    · cases h
  | lose =>
    simp only [move] at h
    split at h
    · cases h
    rename_i hc
    cases h
    exact .reply hc (.inr rfl)
  | write w =>
    obtain ⟨s, hs, rfl⟩ := Option.map_eq_some_iff.mp h
    exact .other (hw w d.shared s hs)

theorem play_trace (hw : ∀ w s t, write w s = some t → host.other s t)
    {first d' : Durable σ Q A ρ ω} {ms : List (Move τ υ)} (ht : Trace (Step host turn) first ls d)
    (h : d.play host turn write ms = some d') :
    Trace (Step host turn) first (ls ++ ms.map Move.label) d' := by
  induction ms generalizing d ls with
  | nil =>
    cases h
    simpa using ht
  | cons m ms ih =>
    obtain ⟨next, hm, hrest⟩ := Option.bind_eq_some_iff.mp h
    have := ih (ht.snoc (move_step hw hm)) hrest
    simpa using this

end Script

/-- A finished run goes on by idling. -/
theorem exists_forever (ht : Trace (Step host turn) d ls d') :
    ∃ run : Forever host turn d, (∀ n, ls.length ≤ n → run.states n = d') ∧
      ∀ n, run.labels n = ls[n]?.getD .idle := by
  induction ht with
  | nil => exact ⟨⟨fun _ => d, fun _ => .idle, rfl, fun _ => .idle⟩, fun _ _ => rfl, fun _ => rfl⟩
  | @snoc es e t u _ hstep ih =>
    obtain ⟨run, hlast, hlabels⟩ := ih
    let states := fun n => if n ≤ es.length then run.states n else u
    have hstates : ∀ n, Step host turn ((es ++ [e])[n]?.getD .idle) (states n)
      (states (n + 1)) := by
      intro n
      rcases Nat.lt_trichotomy n es.length with hlt | rfl | hgt
      · have hrun := run.step n
        rw [hlabels] at hrun
        have hn' : n + 1 ≤ es.length := hlt
        rw [getElem?_append_left hlt]
        simp only [states, if_pos (Nat.le_of_lt hlt), if_pos hn']
        exact hrun
      · have hn' : ¬ es.length + 1 ≤ es.length := by omega
        simp only [states, if_pos (Nat.le_refl es.length), if_neg hn', hlast _ (Nat.le_refl _),
          getElem?_concat_length, Option.getD_some]
        exact hstep
      · have hn : ¬ n ≤ es.length := by omega
        have hn' : ¬ n + 1 ≤ es.length := by omega
        rw [getElem?_eq_none (by simp; omega)]
        simp only [states, if_neg hn, if_neg hn']
        exact .idle
    refine ⟨⟨states, fun n => (es ++ [e])[n]?.getD .idle, ?_, hstates⟩, ?_, fun _ => rfl⟩
    · simpa [states] using run.first
    · intro n hn
      rw [length_append, length_singleton] at hn
      exact if_neg (by omega)

/-- A run that has returned after its last answer, seen as an endless one. -/
theorem exists_answered (ls : List Label)
    (ht : Trace (Step host turn) d (ls ++ [.reply]) d') (hret : d'.Returned) :
    ∃ run : Forever host turn d, run.Answered ∧ ∀ n, ls.length < n → run.labels n ≠ .other := by
  obtain ⟨run, hlast, hlabels⟩ := exists_forever ht
  refine ⟨run, fun n hp => ⟨ls.length, ?_, ?_⟩, fun n hn => ?_⟩
  · by_contra hlt
    obtain ⟨q, k, hask⟩ := hp
    obtain ⟨w, hw⟩ := hret
    rw [hlast n (by simp; omega), hw] at hask
    cases hask
  · rw [hlabels]
    simp
  · rw [hlabels, getElem?_eq_none (by simp; omega)]
    decide

end Runs

end Durable

end AiCloud.Lib
