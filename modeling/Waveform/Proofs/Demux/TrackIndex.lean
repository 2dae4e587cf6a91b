import Waveform.Demux.StoredDemux
import Waveform.Proofs.Demux.Tracks

/-!
# The index of tracks

A demultiplexer in a pool finds the track of a key by an index. This tells for every key the place
of the first track that has it, and a track that is new is put behind all others, so that what is
done by way of the index is what putting tracks by their keys does.
-/

namespace Waveform

namespace StoredDemux

/-- Whether the index lists the keys of all tracks with their places. -/
def IsIndexed (demux : StoredDemux) : Prop :=
  demux.index = (demux.tracks.map StoredTrack.key).zipIdx

variable {demux : StoredDemux} {key : TrackKey}

theorem IsIndexed.placeOf?_eq (indexed : demux.IsIndexed) (key : TrackKey) :
    demux.placeOf? key = demux.tracks.findIdx? fun track => track.key = key := by
  rw [placeOf?, indexed]
  exact (List.findIdx?_eq_fst_find?_zipIdx (p := fun other => decide (other = key))).symm.trans
    List.findIdx?_map

/-- A key has a place exactly if the track there has the key. -/
theorem IsIndexed.placeOf?_eq_some_iff (indexed : demux.IsIndexed)
    (distinct : (demux.tracks.map StoredTrack.key).Nodup) {place : Nat} :
    demux.placeOf? key = some place ↔ (demux.tracks[place]?).map StoredTrack.key = some key := by
  rw [indexed.placeOf?_eq, List.findIdx?_eq_some_iff_getElem, Option.map_eq_some_iff]
  constructor
  · rintro ⟨inside, isKey, _⟩
    exact ⟨demux.tracks[place], List.getElem?_eq_getElem inside, of_decide_eq_true isKey⟩
  · rintro ⟨track, found, rfl⟩
    obtain ⟨inside, rfl⟩ := List.getElem?_eq_some_iff.mp found
    refine ⟨inside, by simp, fun other before => ?_⟩
    have differs := List.nodup_iff_getElem?_ne_getElem?.mp distinct other place before
      (by simpa using inside)
    have otherInside : other < demux.tracks.length := before.trans inside
    simpa [otherInside, inside] using differs

theorem IsIndexed.trackOf_eq (indexed : demux.IsIndexed) (key : TrackKey) :
    demux.trackOf key =
      (demux.tracks.find? fun track => track.key = key).getD (StoredTrack.ofKey key) := by
  rw [trackOf, indexed.placeOf?_eq, List.find?_eq_bind_findIdx?_getElem?]

/-- The state in which a track has been put under its key. -/
def put (demux : StoredDemux) (track : StoredTrack) : StoredDemux :=
  let tracks := putByKey StoredTrack.key track demux.tracks
  { demux with tracks, index := (tracks.map StoredTrack.key).zipIdx }

/-- At the place that is reserved for a key stands its track. A track of this key that takes the
place is put under the key, and the index lists it. -/
theorem IsIndexed.reserve_spec (indexed : demux.IsIndexed) (key : TrackKey) :
    ∃ place reserved, demux.reserve key = (place, reserved) ∧
      reserved.tracks[place]? = some (demux.trackOf key) ∧
      ∀ track : StoredTrack, track.key = key →
        { reserved with tracks := reserved.tracks.set place track } = demux.put track := by
  have isPlace := indexed.placeOf?_eq key
  rw [reserve, trackOf]
  cases found : demux.placeOf? key with
  | some place =>
      rw [found] at isPlace
      obtain ⟨inside, isKey, _⟩ := List.findIdx?_eq_some_iff_getElem.mp isPlace.symm
      refine ⟨place, demux, rfl, by simp [inside], ?_⟩
      rintro track rfl
      have isPut : putByKey StoredTrack.key track demux.tracks = demux.tracks.set place track :=
        putByKey_eq_set isPlace.symm
      have known : track.key ∈ demux.tracks.map StoredTrack.key :=
        List.mem_map.mpr ⟨demux.tracks[place], List.getElem_mem inside, of_decide_eq_true isKey⟩
      have sameKeys : (putByKey StoredTrack.key track demux.tracks).map StoredTrack.key =
          demux.tracks.map StoredTrack.key := by rw [keys_putByKey, if_pos known]
      simp only [put]
      rw [sameKeys, ← indexed, isPut]
  | none =>
      rw [found] at isPlace
      refine ⟨demux.tracks.length, _, rfl, by simp, ?_⟩
      rintro track rfl
      have isPut : putByKey StoredTrack.key track demux.tracks = demux.tracks ++ [track] :=
        putByKey_eq_append isPlace.symm
      simp only [put]
      rw [isPut, indexed, List.map_append, List.zipIdx_append]
      simp

end StoredDemux

end Waveform
