import SynodStore.Proofs.Polls
import SynodStore.Proofs.Rounds

namespace SynodStore

open Scenario (Fate)

namespace Cluster

variable {c : Cluster} {place k : Nat} {p : Proposer}

def Room (c : Cluster) (place : Nat) (p : Proposer) (k : Nat) : Prop :=
  ∃ p', c.proposers[place]? = some p' ∧ p'.reset = p.reset ∧ p'.issuer.counter.toNat + k < Ballot.counterBound

theorem Room.of_eq {c' : Cluster} (h : c.Room place p k) (hc : c'.proposers = c.proposers) : c'.Room place p k := by
  rwa [Room, hc]

theorem broadcast_eq (place : Nat) (peers : List Nat) (q : Request) :
    (surroundings place).broadcast peers q c = calls q (peers.zip (peers.map fun _ => .pass)) c := by
  have hzip : peers.zip (peers.map fun _ => Fate.pass) = peers.map fun x => (x, .pass) := by
    simpa using List.zip_map' (l := peers) (f := id) (g := fun _ => Fate.pass)
  rw [broadcast_eq_poll, poll, hzip]

end Cluster

namespace Synod

variable {κ : Conditions} {u w : Synod} {n place k : Nat} {t : Mandate} {round : Round} {p : Proposer}

theorem room_spend {c : Cluster} {p' : Proposer} (hp : c.proposers[place]? = some p') (hr : p'.reset = p.reset)
    (hb : p'.issuer.counter.toNat + (k + 1) < Ballot.counterBound) : (c.spend place p').Room place p k := by
  have hlt := (List.getElem?_eq_some_iff.1 hp).1
  refine ⟨{ p' with issuer := p'.issuer.advance }, by rw [Cluster.spend, List.getElem?_set_self hlt], hr, ?_⟩
  rw [Issuer.toNat_advance (by omega)]
  omega

theorem bounded_advance {p' : Proposer} (hb : p'.issuer.counter.toNat + (k + 1) < Ballot.counterBound) :
    p'.issuer.advance.counter.toNat < Ballot.counterBound := by
  rw [Issuer.toNat_advance (by omega)]
  omega

theorem retried_of_ask {config : Config} {answers : List Answer} {next : Round}
    (h : round.conclude config answers = .ask next) : next.retried = round.retried := by
  have hc := round.conclusion config answers
  rw [h] at hc
  cases hc <;> rfl

/-- The phases of a round may follow one another without anything in between, as they do when the round has the
cluster to itself. -/
theorem Run.carry (h : Run .calm u w) (hs : w.sessions[n]? = some (t.facing round))
    (hroom : w.cluster.Room t.place p (k + if round.retried then 0 else 1)) :
    ∃ v s, Run .calm u v ∧ v.sessions = w.sessions.set n s ∧ v.cluster.Room t.place p k ∧
      v.cluster = ((Cluster.surroundings t.place).carry t.config t.sender t.peers round w.cluster).2 ∧
      v.step (.proceed n) =
        v.close n t ((Cluster.surroundings t.place).carry t.config t.sender t.peers round w.cluster).1 := by
  induction hl : round.left using Nat.strong_induction_on generalizing round w with
  | _ l ih =>
      subst hl
      have hlt := (List.getElem?_eq_some_iff.1 hs).1
      let fates : List Fate := t.peers.map fun _ => .pass
      let r := Cluster.calls (round.request t.sender) (t.peers.zip fates) w.cluster
      obtain ⟨x, hx, hxc, hxl⟩ : ∃ x, Run .calm u x ∧ x.cluster = r.2 ∧
          x.sessions = w.sessions.set n ⟨t, .running round (r.1.map some)⟩ := by
        have hfacing : w.sessions[n]? = some ⟨t, .running round
            (([] : List Answer).map some ++ (t.peers ++ []).map fun _ => none)⟩ := by
          rw [hs, Mandate.facing, List.append_nil, List.map_nil, List.nil_append]
        obtain ⟨L, hL⟩ := @Run.calls .calm u w n t round [] [] t.peers [] fates h (by simp) rfl (by simp [fates])
          (by simp [fates, Conditions.calm]) hfacing
        exact ⟨_, hL, rfl, by simp [r, fates]⟩
      have hproposers : x.cluster.proposers = w.cluster.proposers := by rw [hxc, Cluster.proposers_calls]
      have hxs : x.sessions[n]? = some ⟨t, .running round (r.1.map some)⟩ := by rw [hxl, List.getElem?_set_self hlt]
      have hxlt : n < x.sessions.length := by rwa [hxl, List.length_set]
      have hset (s : Session) : x.sessions.set n s = w.sessions.set n s := by rw [hxl, List.set_set]
      have hstep := proceed_eq hxs
      have hrun := hx.proceed hxs
      have hbroadcast : (Cluster.surroundings t.place).broadcast t.peers (round.request t.sender) w.cluster = r :=
        Cluster.broadcast_eq ..
      rw [Surroundings.carry_eq, hbroadcast]
      dsimp only
      rw [← hxc]
      cases hn : round.conclude t.config r.1 with
      | finished outcome =>
          rw [hn] at hstep
          obtain ⟨p', hp', hr', hb'⟩ := hroom
          exact ⟨x, _, hx, hxl, ⟨p', hproposers ▸ hp', hr', by omega⟩, rfl, hstep⟩
      | ask next =>
          rw [hn] at hrun
          have hroom' : x.cluster.Room t.place p (k + if next.retried then 0 else 1) := by
            rw [retried_of_ask hn]
            exact hroom.of_eq hproposers
          obtain ⟨v, s, hv, hvs, hvr, hvc, hvstep⟩ :=
            ih _ (Round.left_conclude hn) (hrun hx.bounded) (List.getElem?_set_self hxlt) hroom' rfl
          exact ⟨v, s, hv, hvs.trans ((List.set_set ..).trans (hset s)), hvr, hvc, hvstep⟩
      | retry =>
          have hretried := Round.retried_of_conclude hn
          rw [hretried] at hroom
          obtain ⟨p', hp', hr', hb'⟩ := hroom.of_eq hproposers
          have hcounter : p'.issuer.counter.toNat < Ballot.counterBound := by omega
          have hissue : (Cluster.surroundings t.place).issue x.cluster =
              (.ok p'.issuer.upcoming, x.cluster.spend t.place p') := Cluster.issue_of_lt hp' hcounter
          simp only [hn, settle, Cluster.launch_of_lt _ hp' hcounter] at hrun
          rw [hissue]
          obtain ⟨v, s, hv, hvs, hvr, hvc, hvstep⟩ := ih _ (Round.left_second _ _ hretried)
            (hrun (bounded_on_spend hx.bounded (bounded_advance hb'))) (List.getElem?_set_self hxlt)
            (room_spend hp' hr' hb') rfl
          exact ⟨v, s, hv, hvs.trans ((List.set_set ..).trans (hset s)), hvr, hvc, hvstep⟩

theorem bounded_enter (action : Action) (rest : Option Nat) (hb : w.bounded) (hroom : w.cluster.Room place p (k + 1))
    (hne : p.peers ≠ []) : (w.enter place action rest).bounded := by
  obtain ⟨p', hp, hr, hb'⟩ := hroom
  rw [enter_eq action rest hp ((Proposer.eq_of_reset hr).2.2 ▸ hne) (by omega)]
  exact bounded_on_spend hb (bounded_advance hb')

theorem Run.enter {action : Action} {rest : Option Nat} (h : Run .calm u (w.enter place action rest))
    (hroom : w.cluster.Room place p (k + 2)) (hne : p.peers ≠ []) :
    ∃ v s, Run .calm u v ∧ v.sessions = w.sessions ++ [s] ∧ v.cluster.Room place p k ∧
      v.cluster = ((Cluster.surroundings place).round p.config p.id action w.cluster).2 ∧
      v.step (.proceed w.sessions.length) = v.close w.sessions.length ⟨place, p.config, p.id, p.peers, action, rest⟩
        ((Cluster.surroundings place).round p.config p.id action w.cluster).1 := by
  obtain ⟨p', hp, hr, hb⟩ := hroom
  obtain ⟨hconfig, hid, hpeers⟩ := Proposer.eq_of_reset hr
  have hcounter : p'.issuer.counter.toNat < Ballot.counterBound := by omega
  let t : Mandate := ⟨place, p.config, p.id, p.peers, action, rest⟩
  rw [enter_eq action rest hp (hpeers ▸ hne) hcounter, hconfig, hid, hpeers] at h
  have hround : (Cluster.surroundings place).round p.config p.id action w.cluster =
      (Cluster.surroundings place).carry p.config p.id p.peers (.first action p'.issuer.upcoming)
        (w.cluster.spend place p') := by
    have hissue : (Cluster.surroundings place).issue w.cluster =
        (.ok p'.issuer.upcoming, w.cluster.spend place p') := Cluster.issue_of_lt hp hcounter
    have hpeers' : (Cluster.surroundings place).peers w.cluster = (p.peers, w.cluster) :=
      hpeers ▸ Cluster.peers_surroundings hp
    exact Surroundings.round_of_issued action hpeers' hne hissue
  rw [hround]
  have hs : ((w.on (w.cluster.spend place p')).convene (t.facing (.first action p'.issuer.upcoming))).sessions[
      w.sessions.length]? = some (t.facing (.first action p'.issuer.upcoming)) := by simp [convene, on]
  obtain ⟨v, s, hv, hvs, hvr, hvc, hvstep⟩ := Run.carry h hs (room_spend hp hr hb)
  exact ⟨v, s, hv, by rw [hvs]; simp [convene, on], hvr, hvc, hvstep⟩

theorem Run.close {v : Synod} {l : List Session} {s : Session} {outcome : Except Failure Vote} (h : Run .calm u v)
    (hv : v.sessions = l ++ [s]) (hstep : v.step (.proceed l.length) = v.close l.length t outcome)
    (hr : t.remaining? outcome = none) :
    ∃ v', Run .calm u v' ∧ v'.sessions = l ++ [t.returning outcome] ∧ v'.cluster = v.cluster := by
  have hturn := h.step (.proceed l.length) rfl
  rw [hstep, Synod.close, hr] at hturn
  exact ⟨_, hturn h.bounded, by simp [turn, hv], rfl⟩

theorem Run.round_alone (h : Run .calm u w) (hp : w.cluster.proposers[place]? = some p) (hne : p.peers ≠ [])
    (hb : p.issuer.counter.toNat + 2 < Ballot.counterBound) (action : Action) :
    ∃ v, Run .calm u v ∧ v.sessions = w.sessions ++ [Mandate.returning ⟨place, p.config, p.id, p.peers, action, none⟩
      (Cluster.round place action w.cluster).1] ∧ v.cluster = (Cluster.round place action w.cluster).2 := by
  have hroom : w.cluster.Room place p (0 + 2) := ⟨p, hp, rfl, by omega⟩
  have henter : Run .calm u (w.enter place action none) :=
    h.step (.round place action) rfl (bounded_enter action none h.bounded hroom hne)
  obtain ⟨v, s, hv, hvs, -, hvc, hstep⟩ := henter.enter hroom hne
  rw [Cluster.round_of_some hp]
  obtain ⟨v', hv', hvs', hvc'⟩ := hv.close hvs hstep
    (by cases ((Cluster.surroundings place).round p.config p.id action w.cluster).1 <;> rfl)
  exact ⟨v', hv', hvs', hvc'.trans hvc⟩

theorem Run.attempts {action : Action} {rest : Nat} (h : Run .calm u (w.enter place action (some rest)))
    (hroom : w.cluster.Room place p (2 * (rest + 1))) (hne : p.peers ≠ []) :
    ∃ v ss, Run .calm u v ∧ v.sessions = w.sessions ++ ss ∧ (∀ s ∈ ss, s.finished) ∧
      v.cluster = ((Cluster.surroundings place).attempts p.config p.id action (rest + 1) w.cluster).2 := by
  induction rest generalizing w with
  | zero =>
      obtain ⟨v, s, hv, hvs, -, hvc, hstep⟩ := h.enter (k := 0) hroom hne
      rw [Surroundings.attempts_eq]
      cases hround : (Cluster.surroundings place).round p.config p.id action w.cluster with
      | mk outcome c =>
          rw [hround] at hvc hstep
          obtain ⟨v', hv', hvs', hvc'⟩ := hv.close hvs hstep (by cases outcome <;> rfl)
          refine ⟨v', _, hv', hvs', List.forall_mem_singleton.2 rfl, hvc'.trans (hvc.trans ?_)⟩
          cases outcome with
          | error failure => rfl
          | ok decision =>
              by_cases hd : decision.action = action
              · simp only [hd, if_true]
              · simp only [hd, if_false]
                rfl
  | succ rest ih =>
      obtain ⟨v, s, hv, hvs, hvr, hvc, hstep⟩ := h.enter (k := 2 * (rest + 1)) hroom hne
      rw [Surroundings.attempts_eq]
      cases hround : (Cluster.surroundings place).round p.config p.id action w.cluster with
      | mk outcome c =>
          rw [hround] at hvc hstep
          cases outcome with
          | error failure =>
              obtain ⟨v', hv', hvs', hvc'⟩ := hv.close hvs hstep rfl
              exact ⟨v', _, hv', hvs', List.forall_mem_singleton.2 rfl, hvc'.trans hvc⟩
          | ok decision =>
              by_cases hd : decision.action = action
              · obtain ⟨v', hv', hvs', hvc'⟩ := hv.close hvs hstep (by simp [Mandate.remaining?, hd])
                refine ⟨v', _, hv', hvs', List.forall_mem_singleton.2 rfl, ?_⟩
                simp only [hd, if_true]
                exact hvc'.trans hvc
              · let t : Mandate := ⟨place, p.config, p.id, p.peers, action, some (rest + 1)⟩
                have hr : t.remaining? (.ok decision) = some rest := by simp [t, Mandate.remaining?, hd]
                have hnext := hv.step (.proceed w.sessions.length) rfl
                rw [hstep, Synod.close, hr] at hnext
                obtain ⟨v', ss, hv', hvs', hover, hvc'⟩ :=
                  ih (hnext (bounded_enter action (some rest) hv.bounded hvr hne)) hvr
                refine ⟨v', t.returning (.ok decision) :: ss, hv', hvs'.trans (by simp [turn, hvs, t]),
                  List.forall_mem_cons.2 ⟨rfl, hover⟩, ?_⟩
                have hc : (v.turn w.sessions.length (t.returning (.ok decision))).cluster = c := hvc
                rw [hc] at hvc'
                simpa only [hd, if_false] using hvc'

theorem Run.propose_alone (h : Run .calm u w) (hp : w.cluster.proposers[place]? = some p) (hne : p.peers ≠ [])
    (hb : p.issuer.counter.toNat + 2 * p.config.maxRounds.toNat < Ballot.counterBound) (action : Action) :
    ∃ v ss, Run .calm u v ∧ v.sessions = w.sessions ++ ss ∧ (∀ s ∈ ss, s.finished) ∧
      v.cluster = (Cluster.propose place action w.cluster).2 := by
  rw [Cluster.propose_of_some hp]
  cases hr : p.config.maxRounds.toNat with
  | zero => exact ⟨w, [], h, by simp, by simp, rfl⟩
  | succ rest =>
      rw [hr] at hb
      have hroom : w.cluster.Room place p (2 * (rest + 1)) := ⟨p, hp, rfl, hb⟩
      have henter := h.step (.propose place action) rfl
      rw [Synod.step, propose_eq hp hr] at henter
      exact (henter (bounded_enter action (some rest) h.bounded hroom hne)).attempts hroom hne

end Synod

end SynodStore
