import IzarraVM.KateaTermination
import IzarraVM.KateaMapChain
import IzarraVM.KateaContainment
import IzarraVM.KateaDeletion
import IzarraVM.KateaProjections
import IzarraVM.AtaChs
import IzarraVM.DmaLaw
import IzarraVM.BusMasterFrame
import IzarraVM.CueLayout
import IzarraVM.StateRoundTrip
import IzarraVM.MidiStream
import IzarraVM.VgaPrediction
import IzarraVM.MargoCopy
import IzarraVM.MargoRuns
import IzarraVM.MargoLine
import IzarraVM.DistiraLanes
import IzarraVM.SbFrames
import IzarraVM.KateaMemoSound
import IzarraVM.ClockRate
import IzarraVM.RtcEstimates
import IzarraVM.PitStrobe
import IzarraVM.PitProjection
import IzarraVM.PicProjection
import IzarraVM.TlbIsolation
import IzarraVM.OplTimers
import IzarraVM.OplEnvelope
import IzarraVM.CpuShift
import IzarraVM.AtapiPlayback
import IzarraVM.MouseMotion
import IzarraVM.WssCounter
import IzarraVM.ShadowCache
import IzarraVM.KateaUnmapped
