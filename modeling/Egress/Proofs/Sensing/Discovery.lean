import Egress.Proofs.Network.Edits
import Egress.Proofs.Network.Renumbering
import Egress.Sensing.Sensor

/-!
# Looking around twice

Looking around adds the open doors of a subroom that the map does not show, and so adds nothing a
second time. Who knows the whole building finds nothing new the first time.
-/
namespace Egress

variable {α : Type} [Scalar α] {b : Building α} {m : CognitiveMap α} {s : SubRoomId}

namespace CognitiveMap

/-- The map was made for the building, whatever has been done to its network since. -/
def StemsFrom (m : CognitiveMap α) (b : Building α) : Prop :=
  ∃ g edits, Network.ofBuilding b = .ok g ∧
    m.network = (new m.agent m.mode g).network.editAll edits

lemma StemsFrom.wellFormed (h : m.StemsFrom b) : m.network.WellFormed := by
  obtain ⟨g, edits, hg, hnetwork⟩ := h
  have hnew : (new m.agent m.mode g).network.WellFormed := by
    cases hmode : m.mode with
    | complete => exact (Network.grown_ofBuilding hg).wellFormed
    | progressive => exact Network.wellFormed_empty
  rw [hnetwork]
  exact (hnew.editAll edits).1

lemma StemsFrom.knows (h : m.StemsFrom b) (hb : b.WellFormed) (hmode : m.mode = .complete)
    (hs : ∃ sub, b.subroom? s = some sub) :
    (∃ v, m.network.subroomAt? v = some s) ∧ m.network.Knows b s := by
  obtain ⟨g, edits, hg, hnetwork⟩ := h
  obtain ⟨sub, hsub⟩ := hs
  have hcomplete := Network.complete_ofBuilding hb hg
  obtain ⟨v, hv⟩ := hcomplete.vertex s sub hsub
  have hext : g.Extends m.network := by
    rw [hnetwork, hmode]
    exact (hcomplete.wellFormed.editAll edits).2
  exact ⟨⟨v, hext.subroomAt v s hv⟩, (hcomplete.knows s sub hsub).extend hext⟩

end CognitiveMap

namespace Sensor

variable {a : Pedestrian α} {env env' : Surroundings α}

lemma run_discovery_of_ok {g : Network α} {n : ℕ} (henv : env.building = b)
    (h : m.network.addSubRoomDoors b a.subroom = (g, .ok n)) :
    discovery.run a m env = ({ m with network := g }, .ok ()) := by
  simp only [run, henv, h]

/-- Whoever looks around in a subroom of the building adds as many edges as it has open doors that
the map does not show. Looking around again finds no more and leaves the map exactly as it is, and
so does looking around for the first time with a complete map. -/
theorem run_discovery_again (hb : b.Made) (hm : m.StemsFrom b)
    (hs : ∃ sub, b.subroom? a.subroom = some sub) (henv : env.building = b)
    (henv' : env'.building = b) :
    let once := (discovery.run a m env).1
    discovery.run a m env = (once, .ok ()) ∧
    discovery.run a once env' = (once, .ok ()) ∧
    (m.network.addSubRoomDoors b a.subroom).2 =
      .ok (m.network.unseenDoors b a.subroom).ncard ∧
    once.network.addSubRoomDoors b a.subroom = (once.network, .ok 0) ∧
    (m.mode = .complete → once = m) := by
  intro once
  have hg := hm.wellFormed
  have hwf := hb.wellFormed
  have hfirst := Network.addSubRoomDoors_snd hg hwf hs
  have hagain := Network.addSubRoomDoors_again hg hwf hs
  have honce : discovery.run a m env =
      ({ m with network := (m.network.addSubRoomDoors b a.subroom).1 }, .ok ()) :=
    run_discovery_of_ok henv (Prod.ext rfl hfirst)
  have hnetwork : once = { m with network := (m.network.addSubRoomDoors b a.subroom).1 } :=
    congrArg Prod.fst honce
  refine ⟨?_, ?_, hfirst, ?_, fun hmode => ?_⟩
  · rw [hnetwork]
    exact honce
  · rw [hnetwork]
    exact run_discovery_of_ok henv' hagain
  · rw [hnetwork]
    exact hagain
  · obtain ⟨hv, hknows⟩ := hm.knows hwf hmode hs
    rw [hnetwork, Network.addSubRoomDoors_of_knows hg hwf hs hv hknows]

section
open Exact

/-- In the second chamber of the lodge a person who has seen nothing finds one door, and no more
the next time. -/
theorem run_discovery_again_lodge : ∃ (b : Building Exact) (m : CognitiveMap Exact)
    (env : Surroundings Exact), b.Made ∧ m.StemsFrom b ∧ env.building = b ∧
    m.mode = .progressive ∧ (m.network.unseenDoors b 6).ncard = 1 ∧
    ((discovery.run (.standing 7 0 6 ⟨real 1, real 1⟩) m env).1.network.addSubRoomDoors b 6).2 =
      .ok 0 := by
  obtain ⟨b, g, hmade, hg, -, -, -, hsub, hone⟩ := Network.exists_lodge
  have hsees (time : Exact) : (Surroundings.mk b time .empty none).building = b := rfl
  obtain ⟨-, -, hcount, hagain, -⟩ := run_discovery_again (m := .new 7 .progressive g)
    (a := .standing 7 0 6 ⟨real 1, real 1⟩) hmade ⟨g, [], hg, rfl⟩ hsub (hsees (real 0))
    (hsees (real 1))
  refine ⟨b, _, _, hmade, ⟨g, [], hg, rfl⟩, rfl, rfl, ?_, congrArg Prod.snd hagain⟩
  exact Except.ok.inj (hcount.symm.trans hone)

end

end Sensor

end Egress
