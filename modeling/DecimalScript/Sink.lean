import DecimalScript.Files.Tree
import DecimalScript.Text.Utf8

/-!
# Text sinks

What writing and flushing come to is up to the device behind a sink, which may hold a limited
number of bytes and may fail to be flushed. A text that does not fit is torn: the bytes of it
that fit are written, and then the device refuses. A flush changes nothing but may fail.
-/

namespace DecimalScript

/-- How a place that text is written to behaves. -/
structure Device where
  /-- How many bytes it can hold in all, if there is a limit. -/
  capacity : Option Nat := none
  /-- What it refuses a text with that does not fit. -/
  refusal : IoFault := .noSpace
  /-- What a flush fails with, if it fails, by the texts that were written before. -/
  flushFault : String → Option IoFault := fun _ => none

namespace Device

/-- The faults that writing to a device can come to. -/
def MayRefuse (device : Device) (fault : IoFault) : Prop :=
  device.capacity ≠ none ∧ fault = device.refusal

/-- The faults that writing to a device or flushing it can come to. -/
def MayFail (device : Device) (fault : IoFault) : Prop :=
  device.MayRefuse fault ∨ ∃ written, device.flushFault written = some fault

/-- A device without a limit that can always be flushed does not fail. -/
theorem not_mayFail {device : Device} {fault : IoFault} (hcapacity : device.capacity = none)
    (hflush : ∀ written, device.flushFault written = none) : ¬ device.MayFail fault := by
  rintro (⟨hlimit, _⟩ | ⟨written, hfault⟩)
  · exact hlimit hcapacity
  · rw [hflush written] at hfault
    cases hfault

end Device

/-- A device and what was written to it. -/
structure Sink extends Device where
  /-- The texts that were written whole. -/
  written : String := ""
  /-- The first bytes of a text that did not fit. -/
  torn : List UInt8 := []

namespace Sink

variable {sink : Sink} {text : String}

/-- How many bytes a sink holds. -/
def size (sink : Sink) : Nat := sink.written.utf8ByteSize + sink.torn.length

/-- Whether a text still fits. -/
def fits (sink : Sink) (text : String) : Bool :=
  match sink.capacity with
  | none => true
  | some capacity => sink.size + text.utf8ByteSize ≤ capacity

/-- The sink with a whole text written to it. -/
def append (sink : Sink) (text : String) : Sink := { sink with written := sink.written ++ text }

/-- The sink with the bytes written to it that fit, of a text that does not fit. -/
def tear (sink : Sink) (text : String) : Sink :=
  let room := sink.capacity.getD 0 - sink.size
  { sink with torn := sink.torn ++ (Text.bytesOf text).take room }

/-- The sink after a text was written to it, whole or torn. -/
def put (sink : Sink) (text : String) : Sink :=
  if sink.fits text then sink.append text else sink.tear text

/-- What flushing the sink fails with, if it fails. -/
def flush (sink : Sink) : Option IoFault := sink.flushFault sink.written

/-- A text that fits is written whole. -/
theorem put_of_fits (h : sink.fits text = true) : sink.put text = sink.append text := if_pos h

/-- Writing does not change the device. -/
theorem toDevice_put (sink : Sink) (text : String) : (sink.put text).toDevice = sink.toDevice := by
  unfold put
  split <;> rfl

/-- Without a limit every text fits. -/
theorem fits_of_capacity (h : sink.capacity = none) (text : String) : sink.fits text = true := by
  rw [fits, h]

/-- A device that a text does not fit may refuse. -/
theorem mayRefuse_of_not_fits (h : sink.fits text = false) : sink.MayRefuse sink.refusal := by
  refine ⟨fun hnone => ?_, rfl⟩
  rw [fits_of_capacity hnone] at h
  cases h

/-- A device that could not be flushed may fail. -/
theorem mayFail_of_flush {fault : IoFault} (h : sink.flush = some fault) : sink.MayFail fault :=
  .inr ⟨_, h⟩

end Sink

end DecimalScript
