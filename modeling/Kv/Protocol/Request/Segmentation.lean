import Kv.Lib.LineSegmentation
import Kv.Protocol.Request.Drain

open Incremental

namespace kv.protocol

/-- A stream with bounded lines has results of its own, which every way of
    reading it gives. -/
theorem IncrementalParser.exists_feed_chunks {stream : Bytes} (hlines : requestFormat.LinesBounded stream) :
    ∃ results final, ∀ (chunks : List Bytes) (fuel : Nat) (req : Request),
      chunks.flatten = stream → stream.length < fuel →
      ∃ self, ({} : IncrementalParser).feed_chunks fuel req chunks = some (results, self) ∧ self.buffer_ = final := by
  obtain ⟨results, final, _, hfeeds⟩ := hlines.feeds
  refine ⟨results, final, ?_⟩
  intro chunks fuel req hchunks hfuel
  have hfresh : Feeds requestFormat.decode ({} : IncrementalParser).buffer_ chunks results final :=
    hfeeds chunks hchunks
  exact feed_chunks_of_feeds hfresh (by simpa [hchunks] using hfuel) req

/-- Any two ways of splitting a stream into reads give the same results, with
    the same requests and error messages in the same order, and leave the same
    bytes in the buffer, provided every command line of the stream has at most
    265 bytes before its LF. Every drain ends within as many calls as the
    stream has bytes, and one more. -/
theorem IncrementalParser.feed_chunks_segmentation {stream : Bytes} (hlines : requestFormat.LinesBounded stream)
    {first second : List Bytes} (hfirst : first.flatten = stream) (hsecond : second.flatten = stream)
    {fuel : Nat} (hfuel : stream.length < fuel) (req req' : Request) :
    ∃ results self self',
      ({} : IncrementalParser).feed_chunks fuel req first = some (results, self) ∧
      ({} : IncrementalParser).feed_chunks fuel req' second = some (results, self') ∧
      self.buffer_ = self'.buffer_ := by
  obtain ⟨results, final, _, hfeeds⟩ := hlines.feeds
  have hfresh (chunks : List Bytes) (hchunks : chunks.flatten = stream) :
      Feeds requestFormat.decode ({} : IncrementalParser).buffer_ chunks results final := hfeeds chunks hchunks
  obtain ⟨self, hself, hbuffer⟩ :=
    feed_chunks_of_feeds (hfresh first hfirst) (by simpa [hfirst] using hfuel) req
  obtain ⟨self', hself', hbuffer'⟩ :=
    feed_chunks_of_feeds (hfresh second hsecond) (by simpa [hsecond] using hfuel) req'
  exact ⟨results, self, self', hself, hself', hbuffer.trans hbuffer'.symm⟩

/-- A stream with a malformed line and an unfinished one, read at once and
    byte by byte. -/
theorem IncrementalParser.feed_chunks_segmentation_example :
    let stream := ascii "GET a" ++ LF :: ascii "NOPE" ++ LF :: ascii "SET k 2" ++ LF :: ascii "hi?PI"
    requestFormat.LinesBounded stream ∧ ∃ results self self',
      ({} : IncrementalParser).feed_chunks 40 ⟨.Ping, [], []⟩ [stream] = some (results, self) ∧
      ({} : IncrementalParser).feed_chunks 40 ⟨.Ping, [], []⟩ (stream.map ([·])) = some (results, self') ∧
      self.buffer_ = self'.buffer_ := by
  intro stream
  have hlines : requestFormat.LinesBounded stream := LineFormat.linesBounded_of_length_le (by decide)
  exact ⟨hlines, feed_chunks_segmentation hlines (by decide) (by decide) (by decide) _ _⟩

end kv.protocol
