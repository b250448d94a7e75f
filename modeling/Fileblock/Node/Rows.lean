import Fileblock.Mount.Inverse
import Fileblock.Node.Command

/-! The rows of mountinfo as the node has them, and as they are read from the text. The kernel
numbers the devices, and a row is known by its number. -/
namespace Fileblock.Node
open Go

section Rows
variable {number : Source → Str}

/-- The row as the parser gives it. -/
structure Row (number : Source → Str) (e : Mount.MountInfo) (m : MountInfo) : Prop where
  majorMinor : e.majorMinor = utf8 (number m.device)
  mountPoint : e.mountPoint = utf8 m.mountPoint
  mountOptions : e.mountOptions = m.mountOptions.map fun o => utf8 o.toList
  superOptions : e.superOptions = m.superOptions.map fun o => utf8 o.toList

/-- The record that the kernel has of it. -/
structure RecordOf (number : Source → Str) (r : Mount.Record) (m : MountInfo) : Prop where
  device : r.device = number m.device
  mountPoint : r.texts.mountPoint = m.mountPoint
  options : r.options = m.mountOptions.map String.toList
  superOptions : r.superOptions = m.superOptions.map String.toList

theorem RecordOf.row {r : Mount.Record} {m : MountInfo} (h : RecordOf number r m) :
    Row number r.info m where
  majorMinor := congrArg utf8 h.device
  mountPoint := congrArg utf8 h.mountPoint
  mountOptions := by
    rw [Mount.Record.info, h.options, List.map_map]
    rfl
  superOptions := by
    rw [Mount.Record.info, h.superOptions, List.map_map]
    rfl

/-- Nothing that the node has of a row is lost in the text. -/
theorem row_rightUnique (hn : Function.Injective number) : Relator.RightUnique (Row number) := by
  have htext : Function.Injective fun o : String => utf8 o.toList :=
    utf8_injective.comp fun _ _ => String.toList_injective
  intro e m m' h h'
  obtain ⟨device, mountPoint, mountOptions, superOptions⟩ := m
  obtain ⟨device', mountPoint', mountOptions', superOptions'⟩ := m'
  rw [MountInfo.mk.injEq]
  refine ⟨hn ?_, ?_, ?_, ?_⟩
  · exact utf8_injective (h.majorMinor.symm.trans h'.majorMinor)
  · exact utf8_injective (h.mountPoint.symm.trans h'.mountPoint)
  · exact List.map_injective_iff.mpr htext (h.mountOptions.symm.trans h'.mountOptions)
  · exact List.map_injective_iff.mpr htext (h.superOptions.symm.trans h'.superOptions)

/-- From a file that lists the mounts of the node, the parser reads the rows that the node
answers with, and no others. -/
theorem mountInfo_parsed (S : Store.Site) (o : Choice) {w : World} {rs : List Mount.Record}
    (hn : Function.Injective number) (hrs : ∀ r ∈ rs, r.Printable ∧ r.Plain ∧ r.texts.Readable)
    (h : List.Forall₂ (RecordOf number) rs w.mountRows) :
    (Mount.parseMountInfo (Mount.printed rs)).2 = none ∧
      ∀ rows, List.Forall₂ (Row number) (Mount.parseMountInfo (Mount.printed rs)).1 rows ↔
        (execOk S o .mountInfo w).1 = .ok rows := by
  rw [Mount.parseMountInfo_of_aligned fun r hr =>
    ⟨(hrs r hr).1, (hrs r hr).1.aligned (hrs r hr).2.1 (hrs r hr).2.2⟩]
  have hrows : List.Forall₂ (Row number) (rs.map Mount.Record.info) w.mountRows :=
    List.forall₂_map_left_iff.mpr (h.imp fun _ _ => RecordOf.row)
  refine ⟨rfl, fun rows => ⟨?_, ?_⟩⟩
  · intro hread
    exact congrArg Except.ok ((row_rightUnique hn).forall₂ hrows hread)
  · intro hok
    rw [← Except.ok.inj hok]
    exact hrows

end Rows
end Fileblock.Node
