import Rafting.VoterLogs
import Rafting.Replication
import Mathlib.Data.Int.Interval

/-! Committed prefixes. A leader commits a position of its own term that a majority has
acknowledged; every later leader was elected by a majority, and has all that the electors
had in common with it. -/
namespace Rafting
open Transition LogHistory Majority ListPrefix

/-- A majority has had the prefix in the term of its last entry, and so has its leader. -/
structure Committed (cfg : Config) (h : List (Move Cluster Action)) (c : Cluster)
    (P : List LogEntry) (x : LogEntry) : Prop where
  last : x ∈ P.getLast?
  led : ∃ B, LedIn h c x.term B ∧ P <+: B
  held : ∃ quorum, IsMajority cfg.ids.toFinset quorum ∧ ∀ v ∈ quorum, Held h c v x.term P

theorem Committed.next {cfg : Config} {h : List (Move Cluster Action)} {c c' : Cluster}
    {act : Action} {P : List LogEntry} {x : LogEntry} (hcommitted : Committed cfg h c P x) :
    Committed cfg (⟨c, act, c'⟩ :: h) c' P x := by
  obtain ⟨hlast, ⟨B, hled, hpre⟩, quorum, hmajority, hheld⟩ := hcommitted
  exact ⟨hlast, ⟨B, hled.next, hpre⟩, quorum, hmajority,
    fun v hv => held_next.mpr (Or.inl (hheld v hv))⟩

theorem Committed.isPrefix_of_later {cfg : Config} {h : List (Move Cluster Action)} {c : Cluster}
    (run : Run (cluster cfg) h c) (hm : Meets KeepsVotes h) {P : List LogEntry} {x : LogEntry}
    (hcommitted : Committed cfg h c P x) {t : Int} (hlt : x.term < t) {B : List LogEntry}
    (hled : LedIn h c t B) : P <+: B := by
  have hterms : Meets KeepsTerms h := hm.imp fun _ _ hcond => hcond.1
  have hm' := keepsTenure_of_keepsTerms run hterms
  have hchain := chain_of_run run hm'
  have logged := logged_of_run run hm'
  refine isPrefix_of_led_later hchain hcommitted.last ?_ hlt hled
  rintro t B hlt ⟨b, hledBy⟩ hlater
  obtain ⟨req, log, ⟨quorum', hmajority', hvoted⟩, rfl, hdescribes, holder, hpre⟩ :=
    electedLogs_of_run run hterms b t B hledBy
  obtain ⟨quorum, hmajority, hheld⟩ := hcommitted.held
  obtain ⟨v, hv, hv'⟩ := hmajority.meet hmajority'
  obtain ⟨y, hy, hPV, hup⟩ := (hvoted v hv').held hchain hcommitted.last hcommitted.led run hm
    (fun _ _ hB => hB) (hheld v hv) hlt hlater
  have haged := aged_of_run run hterms y hy v
  obtain ⟨z, hz, _, _, hlog⟩ := hledBy
  have hB := logged z hz b
  rw [hlog] at hB
  refine ⟨(y.node v).log.inner, log.inner, hPV, haged.sorted, (logged y hy v).2,
    hB.2.of_isPrefix hpre, ?_, holder, hpre⟩
  exact asUpToDate_of_describes hdescribes hup (hB.1.of_isPrefix hpre) (logged y hy v).1
    fun e he => (haged.bounds e he).1

theorem Committed.comparable {cfg : Config} {h : List (Move Cluster Action)} {c : Cluster}
    (run : Run (cluster cfg) h c) (hm : Meets KeepsVotes h) {P P' : List LogEntry}
    {x x' : LogEntry} (hcommitted : Committed cfg h c P x) (hcommitted' : Committed cfg h c P' x') :
    P <+: P' ∨ P' <+: P := by
  have hchain := chain_of_run run
    (keepsTenure_of_keepsTerms run (hm.imp fun _ _ hcond => hcond.1))
  obtain ⟨B, hled, hpre⟩ := hcommitted.led
  obtain ⟨B', hled', hpre'⟩ := hcommitted'.led
  rcases Int.lt_trichotomy x.term x'.term with hlt | heq | hgt
  · have hPB' := hcommitted.isPrefix_of_later run hm hlt hled'
    exact List.prefix_or_prefix_of_prefix hPB' hpre'
  · rcases hchain _ B B' hled (heq ▸ hled') with hsub | hsub
    · exact List.prefix_or_prefix_of_prefix (hpre.trans hsub) hpre'
    · exact List.prefix_or_prefix_of_prefix hpre (hpre'.trans hsub)
  · have hPB := hcommitted'.isPrefix_of_later run hm hgt hled
    exact List.prefix_or_prefix_of_prefix hpre hPB

end Rafting
