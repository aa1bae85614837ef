import Buzzer.Command.Run
import Buzzer.Decimal.Fixed
import Buzzer.Main
import Buzzer.Midi.Arranger
import Buzzer.Performance
import Buzzer.Pitch
import Buzzer.Proofs.Command.Writing
import Buzzer.Proofs.Device.Failures
import Buzzer.Proofs.Device.Levels
import Buzzer.Proofs.Device.Parity
import Buzzer.Proofs.Device.Performance
import Buzzer.Proofs.Device.Tables
import Buzzer.Proofs.Device.Tuning
import Buzzer.Proofs.Draft.Canonical
import Buzzer.Proofs.Draft.Folding
import Buzzer.Proofs.Draft.Refusals
import Buzzer.Proofs.Draft.Rewriting
import Buzzer.Proofs.Draft.Shortest
import Buzzer.Proofs.Midi.Acceptance
import Buzzer.Proofs.Midi.Arranging
import Buzzer.Proofs.Midi.Assignment
import Buzzer.Proofs.Midi.Closest
import Buzzer.Proofs.Midi.Ranking
import Buzzer.Proofs.Midi.Sampling
import Buzzer.Proofs.Midi.Vacancies
import Buzzer.Proofs.Playback.Channels
import Buzzer.Proofs.Playback.Counting
import Buzzer.Proofs.Playback.Ticks
import Buzzer.Proofs.Playback.Walks
import Buzzer.Proofs.Simulation.Length
import Buzzer.Proofs.Simulation.Timers
import Buzzer.Proofs.Song.Format
import Buzzer.Proofs.Song.Truncation
import Buzzer.Proofs.Song.Unchecked
import Buzzer.Proofs.Target.Checking
import Buzzer.Simulation
import Buzzer.Song.Check
