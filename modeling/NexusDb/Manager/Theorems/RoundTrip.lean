import NexusDb.Container.Theorems.Registry
import NexusDb.Manager.Theorems.Calls

namespace NexusDb

theorem Registry.newline_not_mem_idText (n : UInt64) : '\n' ∉ idText n := by
  rw [idText, List.mem_append, not_or]
  exact ⟨by decide, ContainerMeta.newline_not_mem_padded⟩

namespace World

variable {w w₁ : World} {m : ContainerMeta}

theorem loadMeta_saveMeta (hw : m.text.length ≤ upTo) (w : World) :
    (w.saveMeta m (.written upTo true)).snd.loadMeta m.name = some (.load m.name m.text) := by
  rw [loadMeta]
  simp only [saveMeta, Function.update_self, Option.map_some, List.take_of_length_le hw]

-- The container gets another pid and another state later. Its record is saved then, and all of the text
-- reaches the file.
theorem metadata_roundTrip_iff (hr : w.register name memory cpu engine o = (.ok m, w₁)) (pid state : Int)
    (hpid : -2 ^ 63 ≤ pid ∧ pid < 2 ^ 63) (hstate : -2 ^ 31 ≤ state ∧ state < 2 ^ 31)
    (hw : ({ m with pid, state } : ContainerMeta).text.length ≤ upTo) (later : World) :
    (later.saveMeta { m with pid, state } (.written upTo true)).snd.loadMeta name = some { m with pid, state } ↔
      '\n' ∉ engine ∧ '\n' ∉ o.os.cgroupCreate.snd := by
  have ⟨_, _, hcases⟩ := register_cases hr
  rcases hcases with ⟨_, he, _⟩ | ⟨_, he, hreg⟩ <;> cases he
  have hm := hreg.record
  subst hm
  have hload := loadMeta_saveMeta hw later
  rw [hload, Option.some_inj]
  exact ContainerMeta.load_text_iff (newline_not_mem_of_nameValid hreg.valid) (Registry.newline_not_mem_idText _)
    ⟨hpid, hstate⟩ name

def plainEngine : Text := "/bin/db".toList

def renamingEngine : Text := "/bin/db\nname=b".toList

def plainRecord : ContainerMeta :=
  { name := nameA, id := Registry.idText 1, memory := 1024, cpu := 50, engine := plainEngine }

theorem metadata_roundTrip_plain :
    (saveMeta {} { plainRecord with pid := 7, state := 1 } (.written 1000 true)).snd.loadMeta nameA =
      some { plainRecord with pid := 7, state := 1 } := by
  have hr : register {} nameA 1024 50 plainEngine { write := .written 1000 true } =
      (.ok plainRecord, (register {} nameA 1024 50 plainEngine { write := .written 1000 true }).snd) := rfl
  exact (metadata_roundTrip_iff hr 7 1 (by decide) (by decide) (by decide +kernel) {}).mpr ⟨by decide, by decide⟩

-- The second line of the engine is read as the name of another container.
theorem engine_renames_container :
    let w := containerCreate {} nameA 1024 50 renamingEngine { write := .written 1000 true }
    w.fst.isOk ∧ (w.snd.loadMeta nameA).map (fun m => (m.name, m.engine)) = some (nameB, plainEngine) := by
  decide +kernel

end World
end NexusDb
